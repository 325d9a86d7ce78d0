import MiniLisp.Proofs.Token.Spelling
import MiniLisp.Value.Coercion

/-!
The integer at the front of a text. A text that begins with an integer divides into white space, a
sign, digits and a rest in just one way, since none of these can begin with what the one before it
is made of. The integer that is read is the one of this division, and where there is no division
nothing is read. The text of an integer is divided into its sign and its digits, so reading undoes
writing.
-/

namespace MiniLisp

namespace Text

theorem isSpace_of_isDigit {c : Char} (h : c.isDigit = true) : isSpace c = false := by
  have hall : ∀ range ∈ spaceRanges, range.2 < '0'.toNat ∨ '9'.toNat < range.1 := by decide
  obtain ⟨hzero, hnine⟩ := Char.isDigit_iff_toNat.mp h
  rw [Bool.eq_false_iff]
  intro hspace
  obtain ⟨range, hrange, hle, hge⟩ := inRanges_iff.mp hspace
  rcases hall range hrange with hbelow | habove
  · omega
  · omega

end Text

namespace Decimal

/-- A text that begins with an integer, in its parts. -/
structure Leading where
  space : List Char
  negative : Bool
  digits : List Char
  rest : List Char
  isSpace_of_mem : ∀ c ∈ space, Text.isSpace c = true
  digits_ne_nil : digits ≠ []
  run : Text.Run Char.isDigit digits rest

def sign (negative : Bool) : List Char :=
  if negative then ['-'] else []

namespace Leading

def signed (p : Leading) : List Char :=
  sign p.negative ++ p.digits ++ p.rest

def chars (p : Leading) : List Char :=
  p.space ++ p.signed

def int (p : Leading) : Int :=
  if p.negative then -(positional p.digits : Int) else positional p.digits

theorem run_space (p : Leading) : Text.Run Text.isSpace p.space p.signed := by
  refine ⟨p.isSpace_of_mem, ?_⟩
  obtain ⟨space, negative, digits, rest, -, hne, hrun⟩ := p
  obtain ⟨d, digits, rfl⟩ := List.exists_cons_of_ne_nil hne
  intro c hc
  cases negative with
  | false =>
      obtain rfl : d = c := by simpa [signed, sign] using hc
      exact Text.isSpace_of_isDigit (hrun.inside d List.mem_cons_self)
  | true =>
      obtain rfl : '-' = c := by simpa [signed, sign] using hc
      decide

theorem negative_iff (p : Leading) : p.negative = true ↔ p.signed.head? = some '-' := by
  obtain ⟨space, negative, digits, rest, -, hne, hrun⟩ := p
  obtain ⟨d, digits, rfl⟩ := List.exists_cons_of_ne_nil hne
  cases negative with
  | false =>
      have hdigit := hrun.inside d List.mem_cons_self
      have hd : d ≠ '-' := by
        rintro rfl
        simp at hdigit
      simp [signed, sign, hd]
  | true => simp [signed, sign]

/-- There is only one way to take a text apart. -/
theorem eq_of_chars_eq {p q : Leading} (h : p.chars = q.chars) : p = q := by
  obtain ⟨hspace, hsigned⟩ := p.run_space.unique q.run_space h
  have hnegative : p.negative = q.negative := by
    rw [Bool.eq_iff_iff, p.negative_iff, q.negative_iff, hsigned]
  have hunsigned : p.digits ++ p.rest = q.digits ++ q.rest := by
    rw [signed, signed, hnegative, List.append_assoc, List.append_assoc] at hsigned
    exact List.append_cancel_left hsigned
  obtain ⟨hdigits, hrest⟩ := p.run.unique q.run hunsigned
  cases p
  cases q
  congr

end Leading

/-! ### Reading -/

theorem leadingNat?_append {digits rest : List Char} (hne : digits ≠ [])
    (hrun : Text.Run Char.isDigit digits rest) :
    leadingNat? (digits ++ rest) = some (positional digits) := by
  rw [leadingNat?, hrun.takeWhile_append, ← value_eq_positional]
  cases digits with
  | nil => exact absurd rfl hne
  | cons d digits => rfl

theorem exists_of_leadingNat? {cs : List Char} {n : Nat} (h : leadingNat? cs = some n) :
    ∃ digits rest, digits ++ rest = cs ∧ digits ≠ [] ∧ Text.Run Char.isDigit digits rest ∧
      positional digits = n := by
  have hne : cs.takeWhile Char.isDigit ≠ [] := by
    intro hnil
    rw [leadingNat?, hnil] at h
    cases h
  have hrun := Text.Run.of_takeWhile Char.isDigit cs
  have hread := leadingNat?_append hne hrun
  rw [List.takeWhile_append_dropWhile, h] at hread
  exact ⟨_, _, List.takeWhile_append_dropWhile, hne, hrun, (Option.some.inj hread).symm⟩

theorem leadingInt?_chars (p : Leading) : leadingInt? p.chars = some p.int := by
  have hread := leadingNat?_append p.digits_ne_nil p.run
  rw [leadingInt?, Leading.chars, p.run_space.dropWhile_append]
  split
  · next rest hsigned =>
      have hnegative : p.negative = true := p.negative_iff.mpr (by rw [hsigned]; rfl)
      obtain rfl : p.digits ++ p.rest = rest := by
        simpa [Leading.signed, sign, hnegative] using hsigned
      simp [hread, Leading.int, hnegative]
  · next hminus =>
      have hnegative : p.negative = false := by
        rw [Bool.eq_false_iff, Ne, p.negative_iff, List.head?_eq_some_iff]
        rintro ⟨rest, hsigned⟩
        exact hminus rest hsigned
      simp [Leading.signed, sign, hread, Leading.int, hnegative]

theorem exists_leading_of_leadingInt? {cs : List Char} {n : Int} (h : leadingInt? cs = some n) :
    ∃ p : Leading, p.chars = cs ∧ p.int = n := by
  have hspace := Text.Run.of_takeWhile Text.isSpace cs
  have hcs : cs.takeWhile Text.isSpace ++ cs.dropWhile Text.isSpace = cs :=
    List.takeWhile_append_dropWhile
  unfold leadingInt? at h
  split at h
  · next signed hsigned =>
      obtain ⟨m, hm, rfl⟩ := Option.map_eq_some_iff.mp h
      obtain ⟨digits, rest, rfl, hne, hrun, rfl⟩ := exists_of_leadingNat? hm
      refine ⟨⟨_, true, digits, rest, hspace.inside, hne, hrun⟩, ?_, rfl⟩
      rw [hsigned] at hcs
      exact hcs
  · next signed _ =>
      obtain ⟨m, hm, rfl⟩ := Option.map_eq_some_iff.mp h
      obtain ⟨digits, rest, hsigned, hne, hrun, rfl⟩ := exists_of_leadingNat? hm
      refine ⟨⟨_, false, digits, rest, hspace.inside, hne, hrun⟩, ?_, rfl⟩
      rw [← hsigned] at hcs
      exact hcs

theorem leadingInt?_eq_none_iff {cs : List Char} :
    leadingInt? cs = none ↔ ¬ ∃ p : Leading, p.chars = cs := by
  rw [Option.eq_none_iff_forall_ne_some]
  constructor
  · rintro hnone ⟨p, rfl⟩
    exact hnone p.int (leadingInt?_chars p)
  · rintro hparts n hread
    obtain ⟨p, hp, -⟩ := exists_leading_of_leadingInt? hread
    exact hparts ⟨p, hp⟩

theorem leadingInt?_space_append {space rest : List Char}
    (hspace : ∀ c ∈ space, Text.isSpace c = true)
    (hrest : ∀ c ∈ rest.head?, c.isDigit = false) (n : Int) :
    leadingInt? (space ++ chars n ++ rest) = some n := by
  have hrun : ∀ m, Text.Run Char.isDigit (Nat.toDigits 10 m) rest := fun m =>
    ⟨fun _ hc => isDigit_of_mem_toDigits hc, hrest⟩
  cases n with
  | ofNat m =>
      have hread := leadingInt?_chars
        ⟨space, false, Nat.toDigits 10 m, rest, hspace, Nat.toDigits_ne_nil, hrun m⟩
      simpa [Leading.chars, Leading.signed, sign, Leading.int, positional_toDigits, chars]
        using hread
  | negSucc m =>
      have hread := leadingInt?_chars
        ⟨space, true, Nat.toDigits 10 (m + 1), rest, hspace, Nat.toDigits_ne_nil, hrun (m + 1)⟩
      simpa [Leading.chars, Leading.signed, sign, Leading.int, positional_toDigits, chars,
        Int.negSucc_eq] using hread

theorem toInt_string {contents : String} {n : Int} (h : leadingInt? contents.toList = some n) :
    (Value.string contents).toInt = .ok n := by
  rw [Value.toInt, h]

/-- An integer is read from a text exactly when the text divides into white space, a sign, digits
and a rest that does not begin with a digit, and it is the one that sign and digits spell. The
division is unique. Reading undoes writing, so the text that a number is taken for in comparisons is
taken for the same number in arithmetic. -/
theorem leadingInt?_eq_some_iff_leading (cs : List Char) :
    (∀ n, leadingInt? cs = some n ↔ ∃ p : Leading, p.chars = cs ∧ p.int = n) ∧
    (leadingInt? cs = none ↔ ¬ ∃ p : Leading, p.chars = cs) ∧
    (∀ p q : Leading, p.chars = cs → q.chars = cs → p = q) ∧
    (∀ n, leadingInt? (text n).toList = some n) ∧
    ∀ n, ((Value.number n).toText >>= fun contents => (Value.string contents).toInt) = .ok n := by
  have htext : ∀ n, leadingInt? (text n).toList = some n := by
    intro n
    have hread := @leadingInt?_space_append [] [] (by simp) (by simp) n
    rwa [List.nil_append, List.append_nil, ← String.toList_ofList (l := chars n)] at hread
  refine ⟨?_, leadingInt?_eq_none_iff, ?_, htext, ?_⟩
  · intro n
    constructor
    · exact exists_leading_of_leadingInt?
    · rintro ⟨p, rfl, rfl⟩
      exact leadingInt?_chars p
  · rintro p q rfl hq
    exact Leading.eq_of_chars_eq hq.symm
  · intro n
    exact toInt_string (htext n)

end Decimal

end MiniLisp
