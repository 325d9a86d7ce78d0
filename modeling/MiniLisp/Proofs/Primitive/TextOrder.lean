import MiniLisp.Proofs.Primitive.Precedence
import MiniLisp.Proofs.Text.Bytes

/-!
The order of texts that the comparisons of texts share. They compare by code point, which comes to
the same as comparing the UTF-8 encodings byte by byte, and the answers of the five of them fit
together into one total order.
-/

namespace MiniLisp

namespace Relation

theorem between_iff_of_strictMono {α β : Type} [LinearOrder α] [LinearOrder β] {f : α → β}
    (hf : StrictMono f) (r : Relation) {a b : α} : r.Between (f a) (f b) ↔ r.Between a b := by
  cases r with
  | equal => exact hf.injective.eq_iff
  | notEqual => exact not_congr hf.injective.eq_iff
  | less => exact hf.lt_iff_lt
  | greater => exact hf.lt_iff_lt
  | lessEqual => exact hf.le_iff_le
  | greaterEqual => exact hf.le_iff_le

theorem between_bytes_iff (r : Relation) (s t : String) :
    r.Between (Text.bytes s) (Text.bytes t) ↔ r.Between s t :=
  r.between_iff_of_strictMono Text.strictMono_bytes

theorem between_codePoints_iff (r : Relation) (s t : String) :
    r.Between (Text.codePoints s) (Text.codePoints t) ↔ r.Between s t :=
  r.between_iff_of_strictMono Text.strictMono_codePoints

theorem onTexts_eq_between {v w : Value} {s t : String} (hv : v.toText = .ok s)
    (hw : w.toText = .ok t) (r : Relation) :
    r.onTexts [v, w] = .ok (.bool (decide (r.Between s t))) := by
  rw [← holds_compare]
  simp only [onTexts, operands, hv, hw]
  rfl

end Relation

/-- `Affirms name v w` says that the answer to the comparison `name` of `v` with `w` is yes. -/
def Affirms (name : String) (v w : Value) : Prop :=
  apply name [v, w] = .ok (.bool true)

theorem apply_eq_onTexts {name : String} {r : Relation} (h : (name, r) ∈ textRelations)
    (v w : Value) : apply name [v, w] = r.onTexts [v, w] :=
  @apply_of_fits name [v, w] (.texts r) (by simp [typedPrimitives, h]) rfl

theorem affirms_iff_between {name : String} {r : Relation} (h : (name, r) ∈ textRelations)
    {v w : Value} {s t : String} (hv : v.toText = .ok s) (hw : w.toText = .ok t) :
    Affirms name v w ↔ r.Between s t := by
  rw [Affirms, apply_eq_onTexts h, r.onTexts_eq_between hv hw]
  simp

theorem existsUnique_affirms {v w : Value} {s t : String} (hv : v.toText = .ok s)
    (hw : w.toText = .ok t) :
    ∃! name, name ∈ ["string<?", "string=?", "string>?"] ∧ Affirms name v w := by
  have hname : ∀ name, name ∈ ["string<?", "string=?", "string>?"] ∧ Affirms name v w ↔
      name = "string<?" ∧ s < t ∨ name = "string=?" ∧ s = t ∨ name = "string>?" ∧ t < s := by
    intro name
    simp only [List.mem_cons, List.not_mem_nil, or_false, or_and_right]
    refine or_congr (and_congr_right ?_) (or_congr (and_congr_right ?_) (and_congr_right ?_))
    · rintro rfl
      exact @affirms_iff_between _ .less (by decide) _ _ _ _ hv hw
    · rintro rfl
      exact @affirms_iff_between _ .equal (by decide) _ _ _ _ hv hw
    · rintro rfl
      exact @affirms_iff_between _ .greater (by decide) _ _ _ _ hv hw
  simp only [hname]
  rcases lt_trichotomy s t with h | rfl | h
  · simp [h, h.ne, h.not_gt]
  · simp
  · simp [h, h.ne', h.not_gt]

/-- Comparing texts is comparing their UTF-8 encodings byte by byte, in lexicographic order, which
gives the same answers as comparing them by code point. So for arguments that can be taken for texts
exactly one of less, equal and greater is affirmed, the other two comparisons are the unions with
equality, greater is less the other way round, equality is that of the texts, and less is
transitive. -/
theorem texts_compare_by_bytes {u v w : Value} {s t x : String} (hu : u.toText = .ok s)
    (hv : v.toText = .ok t) (hw : w.toText = .ok x) :
    (∀ r : Relation, r.onTexts [u, v] =
      .ok (.bool (decide (r.Between (Text.bytes s) (Text.bytes t))))) ∧
    (∀ (r : Relation) (a b : String), r.Between (Text.bytes a) (Text.bytes b) ↔
      r.Between (Text.codePoints a) (Text.codePoints b)) ∧
    (∀ name r, (name, r) ∈ textRelations → apply name [u, v] = r.onTexts [u, v]) ∧
    (∃! name, name ∈ ["string<?", "string=?", "string>?"] ∧ Affirms name u v) ∧
    (Affirms "string<=?" u v ↔ Affirms "string<?" u v ∨ Affirms "string=?" u v) ∧
    (Affirms "string>=?" u v ↔ Affirms "string>?" u v ∨ Affirms "string=?" u v) ∧
    (Affirms "string>?" u v ↔ Affirms "string<?" v u) ∧
    (Affirms "string=?" u v ↔ s = t) ∧
    (Affirms "string<?" u v → Affirms "string<?" v w → Affirms "string<?" u w) := by
  have hless := @affirms_iff_between "string<?" .less (by decide)
  have hequal := @affirms_iff_between "string=?" .equal (by decide)
  have hgreater := @affirms_iff_between "string>?" .greater (by decide)
  have hlessEqual := @affirms_iff_between "string<=?" .lessEqual (by decide)
  have hgreaterEqual := @affirms_iff_between "string>=?" .greaterEqual (by decide)
  simp only [Relation.Between] at hless hequal hgreater hlessEqual hgreaterEqual
  refine ⟨?_, ?_, ?_, ?_, ?_, ?_, ?_, ?_, ?_⟩
  · intro r
    simp only [r.between_bytes_iff]
    exact r.onTexts_eq_between hu hv
  · intro r a b
    rw [r.between_bytes_iff, r.between_codePoints_iff]
  · intro name r h
    exact apply_eq_onTexts h u v
  · exact existsUnique_affirms hu hv
  · rw [hlessEqual hu hv, hless hu hv, hequal hu hv]
    exact le_iff_lt_or_eq
  · rw [hgreaterEqual hu hv, hgreater hu hv, hequal hu hv]
    exact le_iff_lt_or_eq.trans (or_congr_right eq_comm)
  · rw [hgreater hu hv, hless hv hu]
  · exact hequal hu hv
  · rw [hless hu hv, hless hv hw, hless hu hw]
    exact lt_trans

/-- Encodings of one, three and four bytes. -/
theorem texts_compare_by_bytes_one_three_four :
    (Value.number 7).toText = .ok "7" ∧ (Value.string "\uFFFD").toText = .ok "\uFFFD" ∧
    (Value.string "😀").toText = .ok "😀" ∧
    Affirms "string<?" (.number 7) (.string "\uFFFD") ∧
    Affirms "string<?" (.string "\uFFFD") (.string "😀") ∧
    Affirms "string<?" (.number 7) (.string "😀") := by
  have hleft : Affirms "string<?" (.number 7) (.string "\uFFFD") := rfl
  have hright : Affirms "string<?" (.string "\uFFFD") (.string "😀") := rfl
  obtain ⟨-, -, -, -, -, -, -, -, htrans⟩ :=
    @texts_compare_by_bytes (.number 7) (.string "\uFFFD") (.string "😀") _ _ _ rfl rfl rfl
  exact ⟨rfl, rfl, rfl, hleft, hright, htrans hleft hright⟩

end MiniLisp
