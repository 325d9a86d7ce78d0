import Mathlib.Data.String.Basic

/-!
The order of texts by their bytes. In UTF-8 a code point takes one to four bytes. A longer encoding
begins with a greater byte, and encodings of the same length are compared like numbers in base 64.
So the bytes decide between two different code points before either encoding ends, whatever follows
them, and texts are ordered by their bytes as they are by their code points.
-/

namespace MiniLisp.Text

def codePoints (s : String) : List ℕ :=
  s.toList.map Char.toNat

def bytes (s : String) : List ℕ :=
  s.toUTF8.data.toList.map UInt8.toNat

/-- The bytes of a code point: the first one tells how many there are, and each of the others holds
six bits. -/
def utf8 (n : ℕ) : List ℕ :=
  if n ≤ 0x7F then [n]
  else if n ≤ 0x7FF then [0xC0 + n / 64, 0x80 + n % 64]
  else if n ≤ 0xFFFF then [0xE0 + n / 4096, 0x80 + n / 64 % 64, 0x80 + n % 64]
  else [0xF0 + n / 262144, 0x80 + n / 4096 % 64, 0x80 + n / 64 % 64, 0x80 + n % 64]

theorem map_utf8EncodeChar (c : Char) :
    (String.utf8EncodeChar c).map UInt8.toNat = utf8 c.toNat := by
  have hmax : c.toNat < 0x110000 := by
    rcases c.valid with h | ⟨-, h⟩
    · exact Nat.lt_trans h (by decide)
    · exact h
  unfold String.utf8EncodeChar utf8
  simp only [Char.toNat_val]
  generalize c.toNat = n at hmax ⊢
  split_ifs
  -- Every number is small enough for a byte, so nothing of it is cut off.
  all_goals
    simp only [List.map_cons, List.map_nil, UInt8.toNat_ofNat', List.cons.injEq, and_true]
    omega

theorem bytes_eq_flatMap (s : String) : bytes s = (codePoints s).flatMap utf8 := by
  rw [bytes, String.toUTF8_eq_toByteArray, ← String.utf8Encode_toList, List.utf8Encode,
    List.data_toByteArray, List.map_flatMap, codePoints, List.flatMap_map]
  simp only [map_utf8EncodeChar]

/-! ### Order -/

/-- Of two code points the lesser has the lesser bytes, whatever follows. -/
theorem utf8_append_lt {m n : ℕ} (h : m < n) (xs ys : List ℕ) : utf8 m ++ xs < utf8 n ++ ys := by
  unfold utf8
  split_ifs
  all_goals
    simp only [List.cons_append, List.nil_append, List.cons_lt_cons_iff]
    omega

theorem utf8_ne_nil (n : ℕ) : utf8 n ≠ [] := by
  unfold utf8
  split_ifs <;> simp

/-- The first code points that differ decide, although their bytes need not be at the same place of
a code point's encoding. -/
theorem strictMono_flatMap_utf8 : StrictMono (List.flatMap utf8) := by
  intro ms ns h
  induction ms generalizing ns with
  | nil =>
      cases ns with
      | nil => exact absurd h (lt_irrefl _)
      | cons n ns =>
          obtain ⟨b, bs, hn⟩ := List.exists_cons_of_ne_nil (utf8_ne_nil n)
          rw [List.flatMap_nil, List.flatMap_cons, hn]
          exact List.nil_lt_cons b _
  | cons m ms ih =>
      cases ns with
      | nil => exact absurd h (List.not_lt_nil _)
      | cons n ns =>
          rw [List.flatMap_cons, List.flatMap_cons]
          rcases List.cons_lt_cons_iff.mp h with hlt | ⟨rfl, hrest⟩
          · exact utf8_append_lt hlt _ _
          · exact List.append_left_lt (ih hrest)

theorem strictMono_codePoints : StrictMono codePoints := by
  intro s t h
  exact List.map_lt (fun _ _ hlt => hlt) h

theorem strictMono_bytes : StrictMono bytes := by
  have hbytes : bytes = List.flatMap utf8 ∘ codePoints := funext bytes_eq_flatMap
  rw [hbytes]
  exact strictMono_flatMap_utf8.comp strictMono_codePoints

end MiniLisp.Text
