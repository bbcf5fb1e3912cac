/-!
The order of texts. Texts are compared character by character; that is the order of their UTF-8
bytes, since a character with more bytes has a greater first byte, and bytes of characters with as
many are digits of their numbers.
-/

namespace ThemeRender.Text

def bytes (text : String) : List UInt8 :=
  text.toUTF8.data.toList

theorem bytes_eq (text : String) : bytes text = text.toList.flatMap String.utf8EncodeChar := by
  conv => lhs; rw [← String.ofList_toList (s := text)]
  exact List.toList_data_toByteArray

/-! Numbers as bytes -/

theorem byte_lt {v w : Nat} (less : v < w) (small : w < 256) : UInt8.ofNat v < UInt8.ofNat w := by
  rw [UInt8.lt_iff_toNat_lt, UInt8.toNat_ofNat', UInt8.toNat_ofNat']
  omega

theorem byte_cons_lt {v w : Nat} (less : v < w) (small : w < 256) (rest rest' : List UInt8) :
    UInt8.ofNat v :: rest < UInt8.ofNat w :: rest' :=
  List.cons_lt_cons_iff.mpr (.inl (byte_lt less small))

/-- Whether greater numbers have greater bytes, whatever comes after them. -/
def Increasing (encode : Nat → List UInt8) (bound : Nat) : Prop :=
  ∀ v w, v < w → w < bound → ∀ after after', encode v ++ after < encode w ++ after'

theorem increasing_byte {bound : Nat} (lead : Nat) (small : bound + lead ≤ 256) :
    Increasing (fun v => [UInt8.ofNat (v % bound + lead)]) bound := by
  intro v w less within after after'
  have digit : v % bound = v := Nat.mod_eq_of_lt (Nat.lt_trans less within)
  have digit' : w % bound = w := Nat.mod_eq_of_lt within
  dsimp only
  rw [digit, digit']
  exact byte_cons_lt (by omega) (by omega) after after'

theorem Increasing.digit {encode : Nat → List UInt8} {bound : Nat}
    (increasing : Increasing encode bound) :
    Increasing (fun v => encode (v / 64) ++ [UInt8.ofNat (v % 64 + 128)]) (bound * 64) := by
  intro v w less within after after'
  have front : w / 64 < bound := Nat.div_lt_of_lt_mul (by omega)
  dsimp only
  rw [List.append_assoc, List.append_assoc]
  by_cases same : v / 64 = w / 64
  · rw [same]
    apply List.append_left_lt
    exact byte_cons_lt (by omega) (by omega) after after'
  · exact increasing _ _ (by omega) front _ _

/-- The bytes of a character say how it compares with another before either ends. -/
theorem encode_append_lt {c d : Char} (less : c < d) (after after' : List UInt8) :
    String.utf8EncodeChar c ++ after < String.utf8EncodeChar d ++ after' := by
  have two := (@increasing_byte 32 192 (by decide)).digit
  have three := (@increasing_byte 16 224 (by decide)).digit.digit
  have four := (@increasing_byte 8 240 (by decide)).digit.digit.digit
  have numbers : c.val.toNat < d.val.toNat := less
  have within : d.val.toNat < 0x110000 := by
    have valid := d.valid
    simp only [UInt32.isValidChar, Nat.isValidChar] at valid
    omega
  simp only [Nat.div_div_eq_div_mul] at two three four
  unfold String.utf8EncodeChar
  generalize c.val.toNat = v at *
  generalize d.val.toNat = w at *
  dsimp only
  -- the greater character has as many bytes as the other, or more
  by_cases one : v ≤ 127
  · rw [if_pos one]
    split
    · exact byte_cons_lt numbers (by omega) after after'
    · split
      · exact byte_cons_lt (by omega) (by omega) _ _
      · split
        · exact byte_cons_lt (by omega) (by omega) _ _
        · exact byte_cons_lt (by omega) (by omega) _ _
  rw [if_neg one, if_neg (by omega : ¬ w ≤ 127)]
  by_cases atMostTwo : v ≤ 2047
  · rw [if_pos atMostTwo]
    split
    · exact two v w numbers (by omega) after after'
    · split
      · exact byte_cons_lt (by omega) (by omega) _ _
      · exact byte_cons_lt (by omega) (by omega) _ _
  rw [if_neg atMostTwo, if_neg (by omega : ¬ w ≤ 2047)]
  by_cases atMostThree : v ≤ 65535
  · rw [if_pos atMostThree]
    split
    · exact three v w numbers (by omega) after after'
    · exact byte_cons_lt (by omega) (by omega) _ _
  rw [if_neg atMostThree, if_neg (by omega : ¬ w ≤ 65535)]
  exact four v w numbers (by omega) after after'

/-! Texts -/

theorem flatMap_encode_lt {first second : List Char} (less : first < second) :
    first.flatMap String.utf8EncodeChar < second.flatMap String.utf8EncodeChar := by
  induction less with
  | @nil c rest =>
      cases encoded : String.utf8EncodeChar c with
      | nil => exact absurd encoded String.utf8EncodeChar_ne_nil
      | cons byte bytes =>
          rw [List.flatMap_cons, encoded]
          exact .nil
  | @rel c rest d rest' less =>
      rw [List.flatMap_cons, List.flatMap_cons]
      exact encode_append_lt less _ _
  | cons less ih =>
      rw [List.flatMap_cons, List.flatMap_cons]
      exact List.append_left_lt ih

theorem bytes_lt_iff {first second : String} : bytes first < bytes second ↔ first < second := by
  have keeps {first second : String} (less : first < second) : bytes first < bytes second := by
    rw [bytes_eq, bytes_eq]
    exact flatMap_encode_lt (String.lt_iff.mp less)
  constructor
  · intro less
    rcases Std.lt_trichotomy first second with same | rfl | greater
    · exact same
    · exact absurd less (List.lt_irrefl _)
    · exact absurd less (List.lt_asymm (keeps greater))
  · exact keeps

end ThemeRender.Text
