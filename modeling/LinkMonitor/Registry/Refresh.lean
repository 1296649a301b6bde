import LinkMonitor.Event
import LinkMonitor.Registry.Basic

/-!
# Refreshing the company catalog

All providers are asked in order, and the catalog is replaced if none of them fails.  Asking a
provider may have effects, in a monad of its own.  Where it has none, it comes to what is known to
be fetched from the provider (`fetchAll`, `refresh`).
-/

namespace LinkMonitor

/-- Why formats could not be fetched. -/
inductive ProvisionError where
  | provider (name message : String)
  | io (message : String)
deriving DecidableEq, Repr

def ProvisionError.message : ProvisionError → String
  | .provider name message => "provider '" ++ name ++ "' failed: " ++ message
  | .io message => "I/O error: " ++ message

/-- A source of company formats, and what fetching them gives. -/
structure Provider where
  name : String
  fetched : Except ProvisionError (List MessageFormat)

namespace Provider

/-- Asks providers for their formats in order, up to the first that fails, with a note on each. -/
def askAll {m : Type → Type} [Monad m]
    (ask : Provider → m (Except ProvisionError (List MessageFormat))) :
    List Provider → m (List Event × Except ProvisionError (List MessageFormat))
  | [] => pure ([], .ok [])
  | p :: ps => do
    match ← ask p with
    | .error e => pure ([.note ("company refresh aborted: " ++ e.message)], .error e)
    | .ok fs =>
      let (events, rest) ← askAll ask ps
      pure (.note (p.name ++ ": " ++ toString fs.length ++ " formats") :: events,
        rest.map (fs ++ ·))

/-- Asks providers without any effect. -/
def fetchAll (ps : List Provider) : List Event × Except ProvisionError (List MessageFormat) :=
  askAll (m := Id) fetched ps

theorem fetchAll_cons (p : Provider) (ps : List Provider) :
    fetchAll (p :: ps) =
      match p.fetched with
      | .error e => ([.note ("company refresh aborted: " ++ e.message)], .error e)
      | .ok fs =>
        (.note (p.name ++ ": " ++ toString fs.length ++ " formats") :: (fetchAll ps).1,
          (fetchAll ps).2.map (fs ++ ·)) := rfl

end Provider

namespace Registry

/-- Replaces the company catalog by what has been fetched, or leaves it if that has failed. -/
def conclude (r : Registry) (out : List Event × Except ProvisionError (List MessageFormat)) :
    Registry × List Event × Except ProvisionError Nat :=
  let (events, fetched) := out
  let events := .note "company refresh started" :: events
  match fetched with
  | .error e => (r, events, .error e)
  | .ok fs =>
    (r.replace fs .company,
      events ++ [.note ("company refresh complete: " ++ toString fs.length ++ " formats loaded")],
      .ok fs.length)

/-- Replaces the company catalog by the formats of all providers, or leaves it if one fails. -/
def refreshAsking {m : Type → Type} [Monad m]
    (ask : Provider → m (Except ProvisionError (List MessageFormat))) (r : Registry)
    (ps : List Provider) : m (Registry × List Event × Except ProvisionError Nat) := do
  return r.conclude (← Provider.askAll ask ps)

/-- A refresh by providers that are asked without any effect. -/
def refresh (r : Registry) (ps : List Provider) :
    Registry × List Event × Except ProvisionError Nat :=
  refreshAsking (m := Id) Provider.fetched r ps

theorem refresh_eq_conclude (r : Registry) (ps : List Provider) :
    r.refresh ps = r.conclude (Provider.fetchAll ps) := rfl

end Registry

end LinkMonitor
