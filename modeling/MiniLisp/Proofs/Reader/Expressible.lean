import MiniLisp.Proofs.Reader.Composition
import MiniLisp.Proofs.Value.Tokens

/-!
Which values have a source text. Reading yields only names that are symbols and no truth value, and
only numbers that are not negative. Every value with such parts has a text, in which strings are
escaped, truth values have their own spelling and dotted lists may be without elements. The text a
value is printed as does none of this.
-/

namespace MiniLisp

namespace Value

mutual

/-- A text from which the value is read. -/
def spell : Value → String
  | atom name => name
  | list items => "(" ++ " ".intercalate (spellAll items) ++ ")"
  | dotted head tail =>
      "(" ++ String.join ((spellAll head).map (· ++ " ")) ++ "." ++ " " ++ tail.spell ++ ")"
  | number n => Decimal.text n
  | string contents => "\"" ++ String.ofList (Text.escape contents.toList) ++ "\""
  | bool b => if b then "#t" else "#f"

def spellAll : List Value → List String
  | [] => []
  | v :: vs => spell v :: spellAll vs

end

theorem spellAll_eq_map (vs : List Value) : spellAll vs = vs.map spell := by
  induction vs with
  | nil => rfl
  | cons v vs ih => rw [spellAll, ih, List.map_cons]

end Value

theorem intercalate_concat (sep last : String) (parts : List String) :
    sep.intercalate (parts ++ [last]) = String.join (parts.map (· ++ sep)) ++ last := by
  induction parts with
  | nil => simp
  | cons part parts ih =>
      rw [List.cons_append, String.intercalate_cons_of_ne_nil (by simp), ih, List.map_cons,
        String.join_cons]
      simp only [String.append_assoc]

def Separator.space : Separator :=
  ⟨" ", by simp, by simp [Token.isBlank]⟩

variable {limit : Nat}

theorem closedText_map_space (spellings : List (Spelling limit)) :
    closedText (spellings.map fun s => (s, .space)) =
      String.join ((spellings.map Spelling.text).map (· ++ " ")) := by
  simp [closedText, Separator.space, Function.comp_def]

namespace Value

def Spelt (limit : Nat) (v : Value) : Prop :=
  ∃ s : Spelling limit, s.text = v.spell ∧ s.value = v

theorem exists_spellings {vs : List Value} (h : ∀ v ∈ vs, v.Spelt limit) :
    ∃ spellings : List (Spelling limit),
      spellings.map Spelling.text = vs.map spell ∧ spellings.map Spelling.value = vs := by
  induction vs with
  | nil => exact ⟨[], rfl, rfl⟩
  | cons v vs ih =>
      obtain ⟨⟨s, htext, hvalue⟩, htail⟩ := List.forall_mem_cons.mp h
      obtain ⟨spellings, htexts, hvalues⟩ := ih htail
      refine ⟨s :: spellings, ?_, ?_⟩
      · rw [List.map_cons, htext, htexts, List.map_cons]
      · rw [List.map_cons, hvalue, hvalues]

theorem spelt_list {items : List Value} (h : ∀ v ∈ items, v.Spelt limit) :
    (list items).Spelt (limit + 1) := by
  rcases List.eq_nil_or_concat' items with rfl | ⟨front, last, rfl⟩
  · exact ⟨.empty, rfl, rfl⟩
  · obtain ⟨hfront, hlast⟩ := List.forall_mem_append.mp h
    obtain ⟨spellings, htexts, hvalues⟩ := exists_spellings hfront
    obtain ⟨s, htext, hvalue⟩ := hlast last (List.mem_singleton_self last)
    -- Every element but the last has a space after it.
    refine ⟨.list (spellings.map fun s => (s, .space)) s, ?_, ?_⟩
    · rw [Spelling.list_text, closedText_map_space, htexts, htext, spell, spellAll_eq_map,
        List.map_append, List.map_singleton, intercalate_concat]
      simp only [String.append_assoc]
    · rw [Spelling.list_value, List.map_map, hvalue]
      exact congrArg (fun front => list (front ++ [last])) hvalues

theorem spelt_dotted {head : List Value} {tail : Value} (hhead : ∀ v ∈ head, v.Spelt limit)
    (htail : tail.Spelt limit) : (dotted head tail).Spelt (limit + 1) := by
  obtain ⟨spellings, htexts, hvalues⟩ := exists_spellings hhead
  obtain ⟨s, htext, hvalue⟩ := htail
  refine ⟨.dotted (spellings.map fun s => (s, .space)) .space s, ?_, ?_⟩
  · rw [Spelling.dotted_text, closedText_map_space, htexts, htext, spell, spellAll_eq_map]
    rfl
  · rw [Spelling.dotted_value, List.map_map, hvalue]
    exact congrArg (fun head => dotted head tail) hvalues

theorem spelt_of_expressible {v : Value} (h : v.Expressible) (hdepth : v.depth ≤ limit) :
    v.Spelt limit := by
  induction v using Value.induction generalizing limit with
  | atom name =>
      obtain ⟨hname, htrue, hfalse⟩ : Spellable (atom name) := h _ (self_mem_nodes _)
      exact ⟨.symbol name hname htrue hfalse, rfl, rfl⟩
  | list items ih =>
      obtain ⟨-, hitems⟩ := forall_nodes_list.mp h
      obtain ⟨room, rfl⟩ := Nat.exists_eq_succ_of_ne_zero (ne_zero_of_depth_list_le hdepth)
      rw [Nat.succ_eq_add_one, depth_list_le_iff] at hdepth
      exact spelt_list fun v hv => ih v hv (hitems v hv) (hdepth v hv)
  | dotted head tail ihhead ihtail =>
      obtain ⟨-, hhead, htail⟩ := forall_nodes_dotted.mp h
      obtain ⟨room, rfl⟩ := Nat.exists_eq_succ_of_ne_zero (ne_zero_of_depth_dotted_le hdepth)
      obtain ⟨hheads, htails⟩ := depth_dotted_le_iff.mp hdepth
      exact spelt_dotted (fun v hv => ihhead v hv (hhead v hv) (hheads v hv)) (ihtail htail htails)
  | number n =>
      have hn : 0 ≤ n := h (number n) (self_mem_nodes _)
      obtain ⟨n, rfl⟩ := Int.eq_ofNat_of_zero_le hn
      refine ⟨.leaf (Decimal.text n) ?_ .number, rfl, rfl⟩
      simpa [Decimal.text, Decimal.chars] using spelled_toDigits n
  | string contents =>
      refine ⟨.leaf (string contents).spell ?_ .string, rfl, rfl⟩
      simpa [spell] using Token.Spelled.string (Text.escaped_escape contents.toList)
  | bool b =>
      cases b with
      | true => exact ⟨.leaf "#t" (.symbol (by decide +kernel)) .truth, rfl, rfl⟩
      | false => exact ⟨.leaf "#f" (.symbol (by decide +kernel)) .falsity, rfl, rfl⟩

theorem parse_spell {v : Value} (h : v.Expressible) (hdepth : v.depth ≤ limit) :
    parse limit v.spell = .ok v := by
  obtain ⟨s, htext, hvalue⟩ := spelt_of_expressible h hdepth
  rw [← htext, s.parse_eq, hvalue]

theorem hasSource_iff {v : Value} :
    (∃ source, parse limit source = .ok v) ↔ v.Expressible ∧ v.depth ≤ limit := by
  constructor
  · rintro ⟨source, h⟩
    exact ⟨expressible_of_parse h, depth_le_of_parse h⟩
  · rintro ⟨h, hdepth⟩
    exact ⟨v.spell, parse_spell h hdepth⟩

theorem expressible_dotted_iff {head : List Value} {tail : Value} :
    (dotted head tail).Expressible ↔ (∀ v ∈ head, v.Expressible) ∧ tail.Expressible := by
  unfold Expressible
  rw [forall_nodes_dotted]
  exact and_iff_right trivial

end Value

/-- The values that have a source text within a limit. If a value has any text, `spell` is one.
Strings and truth values always have a text, and dotted lists have one if their parts do, also
without elements before the dot. -/
theorem exists_parse_eq_ok_iff (limit : Nat) :
    (∀ v : Value, (∃ source, parse limit source = .ok v) ↔ v.Expressible ∧ v.depth ≤ limit) ∧
    (∀ v : Value, (∃ source, parse limit source = .ok v) ↔ parse limit v.spell = .ok v) ∧
    (∀ contents, ∃ source, parse limit source = .ok (.string contents)) ∧
    (∀ b, ∃ source, parse limit source = .ok (.bool b)) ∧
    ∀ head tail, (∀ u ∈ head, ∃ source, parse limit source = .ok u) →
      (∃ source, parse limit source = .ok tail) →
      ∃ source, parse (limit + 1) source = .ok (.dotted head tail) := by
  refine ⟨fun v => Value.hasSource_iff, fun v => ?_, fun contents => ?_, fun b => ?_, ?_⟩
  · constructor
    · intro h
      obtain ⟨hexpressible, hdepth⟩ := Value.hasSource_iff.mp h
      exact Value.parse_spell hexpressible hdepth
    · intro h
      exact ⟨v.spell, h⟩
  · exact Value.hasSource_iff.mpr ⟨by simp [Value.Expressible, Value.Spellable], Nat.zero_le _⟩
  · exact Value.hasSource_iff.mpr ⟨by simp [Value.Expressible, Value.Spellable], Nat.zero_le _⟩
  · intro head tail hhead htail
    obtain ⟨hexpressible, hdepth⟩ := Value.hasSource_iff.mp htail
    have hheads := fun u hu => Value.hasSource_iff.mp (hhead u hu)
    refine Value.hasSource_iff.mpr ⟨Value.expressible_dotted_iff.mpr ⟨?_, hexpressible⟩, ?_⟩
    · exact fun u hu => (hheads u hu).1
    · exact Value.depth_dotted_le_iff.mpr ⟨fun u hu => (hheads u hu).2, hdepth⟩

example : (Value.dotted [] (.list [.bool true, .string "a\"\\\n"])).spell =
    "(. (#t \"a\\\"\\\\\n\"))" := by
  decide +kernel

example : ¬ (Value.list [.atom "x", .number (-1)]).Expressible := by
  decide +kernel

end MiniLisp
