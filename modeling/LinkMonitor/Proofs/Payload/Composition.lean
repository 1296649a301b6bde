import LinkMonitor.Proofs.Payload.Grammar
import LinkMonitor.Proofs.Payload.Reading

/-!
# Decode specs one after another

Two specs with a blank between them are one spec.  It says what the one and the other say, unless
the words at the seam make up a transform: an operator at the front of the second spec, or a number
there after an operator at the end of the first.  `BeginsAnew` is what excludes both.

Directives pass on nothing but the place where they have stopped, so that the second spec then shows
what it shows by itself of the bytes that the first has left.
-/

namespace LinkMonitor.Payload

open LinkMonitor.Text

namespace Directive

/-! ## Words at the seam -/

/-- The first of the words, if there is one, is neither an operator nor a number. -/
def BeginsAnew (ws : List (List Char)) : Prop :=
  ∀ w ∈ ws.head?, Operator.ofWord? w = none ∧ Number.ofWord? w = none

instance (ws : List (List Char)) : Decidable (BeginsAnew ws) :=
  inferInstanceAs (Decidable (∀ w ∈ ws.head?, _ ∧ _))

theorem not_beginWithTransform_append {ws ws' : List (List Char)} (hws : ¬ BeginWithTransform ws)
    (hws' : BeginsAnew ws') : ¬ BeginWithTransform (ws ++ ws') := by
  rintro ⟨op, operand, n, rest, he, hn⟩
  match ws with
  | [] =>
      have hop := (hws' [op.symbol] (by simp_all)).1
      simp at hop
  | [w] =>
      have hoperand := (hws' operand (by simp_all)).2
      simp [hn] at hoperand
  | w :: w' :: ws =>
      simp only [List.cons_append, List.cons.injEq] at he
      obtain ⟨rfl, rfl, -⟩ := he
      exact hws ⟨op, w', n, ws, rfl, hn⟩

/-- The only directive that looks ahead is a field, and it sees no more transforms than before. -/
theorem Derives.append {ws ws' : List (List Char)} {ds ds' : List Directive} (h : Derives ws ds)
    (hanew : BeginsAnew ws') (h' : Derives ws' ds') : Derives (ws ++ ws') (ds ++ ds') := by
  induction h with
  | nil => exact h'
  | @field k used ws ts ds hspell hend _ ih =>
      have hfield := Derives.field (k := k) hspell (not_beginWithTransform_append hend hanew) ih
      rwa [← List.append_assoc] at hfield
  | word hw hd _ ih => exact .word hw hd ih

theorem words_spec_append (s t : String) :
    words isSpecBlank (s ++ " " ++ t).toList =
      words isSpecBlank s.toList ++ words isSpecBlank t.toList := by
  have htext : (s ++ " " ++ t).toList = s.toList ++ ' ' :: t.toList := by simp
  rw [htext, words_append_cons rfl]

theorem ofSpec_append {s t : String} (h : BeginsAnew (words isSpecBlank t.toList)) :
    ofSpec (s ++ " " ++ t) = ofSpec s ++ ofSpec t := by
  have hderives := (derives_ofWords (words isSpecBlank s.toList)).append h (derives_ofWords _)
  rw [ofSpec, words_spec_append, hderives.ofWords_eq, ofSpec, ofSpec]

end Directive

open Directive

/-! ## Pieces -/

theorem pieces_append (ds es : List Directive) (c : Cursor) :
    pieces (ds ++ es) c = pieces ds c ++ pieces es (placeAfter ds c) := by
  induction ds generalizing c with
  | nil => rfl
  | cons d ds ih => simp [ih]

/-- Pieces depend on the bytes that are still to be read, and not on how many were read before. -/
theorem pieces_congr {c c' : Cursor} (h : c.unread = c'.unread) (ds : List Directive) :
    pieces ds c = pieces ds c' := by
  induction ds generalizing c c' with
  | nil => rfl
  | cons d ds ih =>
      have hremaining : c.remaining = c'.remaining := congrArg List.length h
      have hafter : (d.after c).unread = (d.after c').unread := by
        rw [d.after_eq_advance, d.after_eq_advance, Cursor.unread_advance, Cursor.unread_advance, h,
          hremaining]
      have hpiece : d.piece c = d.piece c' :=
        piece_congr (render_congr hremaining (by rw [h, hremaining]))
      rw [pieces_cons, pieces_cons, hpiece, ih hafter]

theorem joined_append (ps qs : List String) :
    joined (ps ++ qs) = Option.merge (fun x y ↦ x ++ " " ++ y) (joined ps) (joined qs) := by
  unfold joined
  rw [List.filter_append]
  cases hp : ps.filter (· ≠ "") with
  | nil => cases hq : qs.filter (· ≠ "") <;> rfl
  | cons p ps =>
      cases hq : qs.filter (· ≠ "") with
      | nil => rw [List.append_nil]; rfl
      | cons q qs =>
          have hjoin : " ".intercalate (p :: ps ++ q :: qs) =
              " ".intercalate (p :: ps) ++ " " ++ " ".intercalate (q :: qs) :=
            String.intercalate_append_of_ne_nil (List.cons_ne_nil p ps) (List.cons_ne_nil q qs)
          simp only [List.cons_append] at hjoin ⊢
          rw [hjoin]
          rfl

/-- **Specs one after another.**  Unless the second spec begins with an operator or a number, two
specs with a space between them have the directives of both.  If the first reads `k` bytes of a
payload, they show what the first shows of the payload and the second of what is behind these bytes,
with a space between the two if both show something. -/
theorem decode_spec_append {s t : String} (h : BeginsAnew (words isSpecBlank t.toList))
    (payload : List UInt8) :
    ofSpec (s ++ " " ++ t) = ofSpec s ++ ofSpec t ∧
      ∃ k ≤ payload.length, placeAfter (ofSpec s) (.start payload) = ⟨k, payload.drop k⟩ ∧
        decode (s ++ " " ++ t) payload =
          Option.merge (fun x y ↦ x ++ " " ++ y) (decode s payload)
            (decode t (payload.drop k)) := by
  have hplace := isIn_placeAfter (Cursor.isIn_start payload) (ofSpec s)
  generalize hk : placeAfter (ofSpec s) (.start payload) = c at hplace
  refine ⟨ofSpec_append h, c.position, hplace.position_le, ?_, ?_⟩
  · rw [← hplace.unread]
  · have hrest : pieces (ofSpec t) c = pieces (ofSpec t) (.start (payload.drop c.position)) :=
      pieces_congr hplace.unread _
    rw [decode, ofSpec_append h, pieces_append, joined_append, hk, hrest]
    rfl

/-- The first spec ends with an operator and divides by zero, and has a run without a text; the
second begins with an escaped number. -/
theorem decode_spec_append_at_operator :
    let s := "c / 0 a2 C *"
    let t := "\\3 g"
    let payload : List UInt8 := [0x07, 0x00, 0x41, 0xFF, 0x05, 0x01]
    BeginsAnew (words isSpecBlank t.toList) ∧
      decode s payload = some "? -1 *" ∧ decode t [0x05, 0x01] = some "3 261" ∧
      decode (s ++ " " ++ t) payload = some "? -1 * 3 261" := by
  intro s t payload
  have hanew : BeginsAnew (words isSpecBlank t.toList) := by decide +kernel
  obtain ⟨-, k, -, hplace, hdecode⟩ := decode_spec_append (s := s) hanew payload
  have hk : k = 4 := by
    have hposition : (placeAfter (ofSpec s) (.start payload)).position = 4 := by
      decide +kernel
    rwa [hplace] at hposition
  subst hk
  have hfirst : decode s payload = some "? -1 *" := by decide +kernel
  have hsecond : decode t [0x05, 0x01] = some "3 261" := by decide +kernel
  refine ⟨hanew, hfirst, hsecond, ?_⟩
  rw [hdecode, hfirst]
  exact congrArg _ hsecond

end LinkMonitor.Payload
