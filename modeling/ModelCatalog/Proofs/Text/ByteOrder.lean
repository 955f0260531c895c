import ModelCatalog.NameSet

/-!
# The order of names and of bytes

Names are ordered by their characters from left to right. UTF-8 gives a character that comes first bytes
that come first, whatever follows them (`encoding_lt`), so the order of names is that of their bytes
(`lt_iff_bytes_lt`).
-/

namespace ModelCatalog

/-- The bytes of a text in UTF-8. -/
def bytes (text : String) : List UInt8 := text.toUTF8.data.toList

theorem bytes_eq (text : String) : bytes text = text.toList.flatMap String.utf8EncodeChar := by
  conv => lhs; rw [← String.ofList_toList (s := text)]
  rw [bytes, String.toUTF8_eq_toByteArray]
  exact List.toList_data_toByteArray

/-- Where two characters differ, so do their bytes, and in the same direction. -/
theorem encoding_lt {first second : Char} (lt : first < second) (more others : List UInt8) :
    String.utf8EncodeChar first ++ more < String.utf8EncodeChar second ++ others := by
  have less : first.val.toNat < second.val.toNat := lt
  have bound : second.val.toNat < 0x110000 := by
    rcases second.valid with low | high
    · omega
    · exact high.2
  simp only [String.utf8EncodeChar]
  generalize first.val.toNat = low at less
  generalize second.val.toNat = high at less bound
  -- Below the last code point the bits of the lead byte are the whole quotient.
  have lead (value : Nat) (small : value < 0x110000) : value / 262144 % 8 = value / 262144 := by omega
  repeat' split
  all_goals
    simp (disch := omega) only [List.cons_append, List.nil_append, List.cons_lt_cons_iff, UInt8.lt_iff_toNat_lt,
      ← UInt8.toNat_inj, UInt8.toNat_ofNat', Nat.mod_eq_of_lt, lead]
  all_goals omega

theorem flatMap_encoding_lt {left right : List Char} (lt : left < right) :
    left.flatMap String.utf8EncodeChar < right.flatMap String.utf8EncodeChar := by
  induction left generalizing right with
  | nil =>
    cases right with
    | nil => exact absurd lt (List.not_lt_nil _)
    | cons head rest =>
      rw [List.flatMap_cons]
      cases encoded : String.utf8EncodeChar head with
      | nil => exact absurd encoded String.utf8EncodeChar_ne_nil
      | cons byte more => exact List.nil_lt_cons byte _
  | cons head rest ih =>
    cases right with
    | nil => exact absurd lt (List.not_lt_nil _)
    | cons other others =>
      rw [List.flatMap_cons, List.flatMap_cons]
      rcases List.cons_lt_cons_iff.mp lt with heads | ⟨rfl, rests⟩
      · exact encoding_lt heads _ _
      · exact List.append_left_lt (ih rests)

/-- Names have the order of their bytes. -/
theorem lt_iff_bytes_lt {left right : String} : left < right ↔ bytes left < bytes right := by
  have onward {first second : String} (lt : first < second) : bytes first < bytes second := by
    rw [bytes_eq, bytes_eq]
    exact flatMap_encoding_lt lt
  constructor
  · exact onward
  · intro less
    by_cases same : left = right
    · subst same
      exact absurd less (List.lt_irrefl _)
    · by_cases greater : right < left
      · exact absurd less (List.lt_asymm (onward greater))
      · exact NameSet.lt_of_not_lt greater same

end ModelCatalog
