import MiniLisp.Proofs.Eval.Origin
import MiniLisp.Proofs.RoundTrip

/-!
What the text of a value is read back as when it is not the value itself. Truth values and negative
numbers are written like symbols and become atoms, and everything else stays. The atoms are written
as before, so from then on the text does not change any more, also the text of a result.
-/

namespace MiniLisp

namespace Value

mutual

/-- The value that is read back from a value's text. -/
def reread : Value → Value
  | atom name => atom name
  | list items => list (rereadAll items)
  | dotted head tail => dotted (rereadAll head) tail.reread
  | number n => if n < 0 then atom (Decimal.text n) else number n
  | string contents => string contents
  | bool true => atom "True"
  | bool false => atom "False"

def rereadAll : List Value → List Value
  | [] => []
  | v :: vs => v.reread :: rereadAll vs

end

theorem rereadAll_eq_map (vs : List Value) : rereadAll vs = vs.map reread := by
  induction vs with
  | nil => rfl
  | cons v vs ih => rw [rereadAll, ih, List.map_cons]

@[simp] theorem reread_list (items : List Value) :
    (list items).reread = list (items.map reread) := by
  rw [reread, rereadAll_eq_map]

@[simp] theorem reread_dotted (head : List Value) (tail : Value) :
    (dotted head tail).reread = dotted (head.map reread) tail.reread := by
  rw [reread, rereadAll_eq_map]

/-- What a part of a value must be like for the value's text to be read, be it as another value. -/
def Printable : Value → Prop
  | atom name => Text.isSymbol name.toList = true ∧ name ≠ "#t" ∧ name ≠ "#f"
  | string contents => '"' ∉ contents.toList ∧ '\\' ∉ contents.toList
  | dotted head _ => head ≠ []
  | _ => True

instance (v : Value) : Decidable v.Printable :=
  match v with
  | atom _ => inferInstanceAs (Decidable (_ ∧ _ ∧ _))
  | string _ => inferInstanceAs (Decidable (_ ∧ _))
  | dotted _ _ => inferInstanceAs (Decidable (_ ≠ _))
  | list _ => inferInstanceAs (Decidable True)
  | number _ => inferInstanceAs (Decidable True)
  | bool _ => inferInstanceAs (Decidable True)

/-! ### Rereading keeps text and depth -/

theorem writeAll_map_reread {vs : List Value}
    (h : ∀ v ∈ vs, ∀ rest, v.reread.write rest = v.write rest) (rest : List Char) :
    writeAll (vs.map reread) rest = writeAll vs rest := by
  induction vs with
  | nil => rfl
  | cons v vs ih =>
      have hv := h v List.mem_cons_self
      have hvs := ih fun u hu => h u (List.mem_cons_of_mem v hu)
      cases vs with
      | nil => exact hv rest
      | cons w vs =>
          rw [List.map_cons] at hvs
          rw [List.map_cons, List.map_cons, writeAll, writeAll, hv, hvs]

theorem write_reread (v : Value) (rest : List Char) : v.reread.write rest = v.write rest := by
  induction v using Value.induction generalizing rest with
  | atom name => rfl
  | list items ih => rw [reread_list, write, write, writeAll_map_reread ih]
  | dotted head tail ihhead ihtail =>
      rw [reread_dotted, write, write, writeAll_map_reread ihhead, ihtail]
  | number n =>
      rw [reread]
      split
      · simp [write, Decimal.text]
      · rfl
  | string contents => rfl
  | bool b => cases b <;> rfl

theorem text_reread (v : Value) : v.reread.text = v.text := by
  rw [text, text, chars, chars, write_reread]

theorem depthAll_map_reread {vs : List Value} (h : ∀ v ∈ vs, v.reread.depth = v.depth) :
    depthAll (vs.map reread) = depthAll vs := by
  induction vs with
  | nil => rfl
  | cons v vs ih =>
      obtain ⟨hv, hvs⟩ := List.forall_mem_cons.mp h
      rw [List.map_cons, depthAll, depthAll, hv, ih hvs]

theorem depth_reread (v : Value) : v.reread.depth = v.depth := by
  induction v using Value.induction with
  | atom name => rfl
  | list items ih => rw [reread_list, depth, depth, depthAll_map_reread ih]
  | dotted head tail ihhead ihtail =>
      rw [reread_dotted, depth, depth, depthAll_map_reread ihhead, ihtail]
  | number n =>
      rw [reread]
      split <;> rfl
  | string contents => rfl
  | bool b => cases b <;> rfl

/-! ### Rereading makes a value readable -/

theorem legible_atom_of_neg {n : Int} (h : n < 0) : (atom (Decimal.text n)).Legible := by
  obtain ⟨m, rfl⟩ := Int.eq_negSucc_of_lt_zero h
  refine ⟨?_, ?_, ?_⟩
  · simpa [Decimal.text] using isSymbol_negSucc m
  · intro htrue
    have hchars := congrArg String.toList htrue
    simp [Decimal.text, Decimal.chars] at hchars
  · intro hfalse
    have hchars := congrArg String.toList hfalse
    simp [Decimal.text, Decimal.chars] at hchars

theorem readable_of_isLeaf {v : Value} (hleaf : v.isLeaf = true) (h : v.Legible) : v.Readable := by
  intro u hu
  rw [nodes_eq_of_isLeaf hleaf, List.mem_singleton] at hu
  exact hu ▸ h

theorem readable_reread {v : Value} (h : ∀ u ∈ v.nodes, u.Printable) : v.reread.Readable := by
  induction v using Value.induction with
  | atom name => exact readable_of_isLeaf rfl (h _ (self_mem_nodes _))
  | list items ih =>
      obtain ⟨-, hitems⟩ := forall_nodes_list.mp h
      rw [reread_list]
      refine forall_nodes_list.mpr ⟨trivial, ?_⟩
      intro w hw
      obtain ⟨v, hv, rfl⟩ := List.mem_map.mp hw
      exact ih v hv (hitems v hv)
  | dotted head tail ihhead ihtail =>
      obtain ⟨hne, hhead, htail⟩ := forall_nodes_dotted.mp h
      rw [reread_dotted]
      refine forall_nodes_dotted.mpr ⟨?_, ?_, ihtail htail⟩
      · intro hnil
        exact hne (List.map_eq_nil_iff.mp hnil)
      · intro w hw
        obtain ⟨v, hv, rfl⟩ := List.mem_map.mp hw
        exact ihhead v hv (hhead v hv)
  | number n =>
      rw [reread]
      split
      · next hneg => exact readable_of_isLeaf rfl (legible_atom_of_neg hneg)
      · next hneg => exact readable_of_isLeaf rfl (Int.not_lt.mp hneg)
  | string contents => exact readable_of_isLeaf rfl (h _ (self_mem_nodes _))
  | bool b =>
      cases b with
      | true => exact readable_of_isLeaf rfl ⟨by decide +kernel, by decide, by decide⟩
      | false => exact readable_of_isLeaf rfl ⟨by decide +kernel, by decide, by decide⟩

theorem parse_text_of_printable {v : Value} (h : ∀ u ∈ v.nodes, u.Printable) {limit : Nat}
    (hdepth : v.depth ≤ limit) : parse limit v.text = .ok v.reread := by
  rw [← text_reread]
  exact parse_text_of_readable (readable_reread h) (by rw [depth_reread]; exact hdepth)

end Value

/-! ### Results -/

theorem evaluate_eq_ok_iff {limit : Nat} {source : String} {w : Value} :
    evaluate limit source = .ok w ↔ ∃ v, parse limit source = .ok v ∧ eval v = .ok w := by
  unfold evaluate
  cases parse limit source with
  | error e => simp
  | ok v => simp

/-- The names in a result were read from the source, so they are symbols. -/
theorem printable_atom_of_evaluate {limit : Nat} {source name : String} {w : Value}
    (h : evaluate limit source = .ok w) (hname : .atom name ∈ w.nodes) :
    (Value.atom name).Printable := by
  obtain ⟨v, hparse, heval⟩ := evaluate_eq_ok_iff.mp h
  rcases isSelfEvaluating_or_eq_quoted heval with hliteral | rfl
  · rw [Value.nodes_eq_of_isLeaf (Value.isLeaf_of_isSelfEvaluating hliteral),
      List.mem_singleton] at hname
    rw [← hname] at hliteral
    cases hliteral
  · have hmem : w ∈ w.quoted.nodes := Value.mem_nodes_of_mem_args List.mem_cons_self
    exact expressible_of_parse hparse _ ((Value.nodes_sublist_of_mem hmem).subset hname)

/-- Printed text is stable. If the names in a value are symbols, its strings need no escapes and its
dotted lists have elements, the text of the value is read back, within its depth, as the value with
an atom for each truth value and each negative number, and this is written the same way. Of a result
only the strings and the dotted lists need to be like that. -/
theorem parse_text_eq_reread (limit : Nat) :
    (∀ v : Value, (∀ u ∈ v.nodes, u.Printable) → v.depth ≤ limit →
      parse limit v.text = .ok v.reread ∧ v.reread.text = v.text) ∧
    ∀ (source : String) (w : Value), evaluate limit source = .ok w →
      (∀ contents, .string contents ∈ w.nodes → (Value.string contents).Printable) →
      (∀ head tail, .dotted head tail ∈ w.nodes → head ≠ []) →
      parse limit w.text = .ok w.reread ∧ w.reread.text = w.text := by
  refine ⟨?_, ?_⟩
  · intro v hprintable hdepth
    exact ⟨Value.parse_text_of_printable hprintable hdepth, v.text_reread⟩
  · intro source w h hstrings hdotted
    have hprintable : ∀ u ∈ w.nodes, u.Printable := by
      intro u hu
      cases u with
      | atom name => exact printable_atom_of_evaluate h hu
      | string contents => exact hstrings contents hu
      | dotted head tail => exact hdotted head tail hu
      | _ => trivial
    obtain ⟨v, hparse, heval⟩ := evaluate_eq_ok_iff.mp h
    have hdepth : w.depth ≤ limit :=
      (comesFrom_of_eval heval).depth_le.trans (depth_le_of_parse hparse)
    exact ⟨Value.parse_text_of_printable hprintable hdepth, w.text_reread⟩

/-- A truth value and a negative number at different depths, next to what is read back unchanged. -/
theorem parse_text_eq_reread_mixed :
    (Value.dotted [.bool true, .list [.number (-7), .number 7]] (.string "a b")).text =
      "(True (-7 7) . \"a b\")" ∧
    parse 2 "(True (-7 7) . \"a b\")" =
      .ok (.dotted [.atom "True", .list [.atom "-7", .number 7]] (.string "a b")) := by
  have htext : (Value.dotted [.bool true, .list [.number (-7), .number 7]] (.string "a b")).text =
      "(True (-7 7) . \"a b\")" := by decide +kernel
  have hprintable : ∀ u ∈ (Value.dotted [.bool true, .list [.number (-7), .number 7]]
      (.string "a b")).nodes, u.Printable := by decide +kernel
  have hreread := ((parse_text_eq_reread 2).1 _ hprintable (by decide)).1
  rw [htext] at hreread
  exact ⟨htext, hreread⟩

end MiniLisp
