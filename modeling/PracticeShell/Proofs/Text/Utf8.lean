import PracticeShell.Text.Utf8

/-! The bytes of a text. A text is read back from its bytes, character by character, and a line feed
among the bytes is a line feed in the text. -/
namespace PracticeShell.Text.Utf8
variable {b : UInt8} {u : Unfinished}

def encode (s : String) : List UInt8 := s.toUTF8.data.toList

theorem encode_eq (s : String) : encode s = s.toList.flatMap String.utf8EncodeChar := by
  have hbytes : s.toList.utf8Encode = s.toUTF8 := String.utf8Encode_toList
  rw [encode, ← hbytes, List.utf8Encode, List.toList_data_toByteArray]

theorem encode_append (s t : String) : encode (s ++ t) = encode s ++ encode t := by
  simp [encode_eq]

theorem toNat_ofNat {n : Nat} (h : n < 256) : (UInt8.ofNat n).toNat = n := by
  simpa using Nat.mod_eq_of_lt h

/-! ### One byte after the other -/

theorem decodeFrom_first (h : start b.toNat = ([], some u)) (bs : List UInt8) :
    decodeFrom none (b :: bs) = decodeFrom (some u) bs := by
  simp [decodeFrom, step, h]

theorem decodeFrom_middle (hb : u.low ≤ b.toNat ∧ b.toNat ≤ u.high) (hneeded : u.needed ≠ 1)
    (bs : List UInt8) :
    decodeFrom (some u) (b :: bs) =
      decodeFrom (some ⟨64 * u.bits + (b.toNat - 0x80), u.needed - 1, 0x80, 0xBF⟩) bs := by
  simp [decodeFrom, step, hb, hneeded]

theorem decodeFrom_last (hb : u.low ≤ b.toNat ∧ b.toNat ≤ u.high) (hneeded : u.needed = 1)
    (bs : List UInt8) :
    decodeFrom (some u) (b :: bs) =
      Char.ofNat (64 * u.bits + (b.toNat - 0x80)) :: decodeFrom none bs := by
  simp [decodeFrom, step, hb, hneeded]

/-! ### The bytes of one character, by their number -/

theorem decodeFrom_one {v : Nat} (hv : v ≤ 0x7F) (bs : List UInt8) :
    decodeFrom none (UInt8.ofNat v :: bs) = Char.ofNat v :: decodeFrom none bs := by
  have h₁ := toNat_ofNat (n := v) (by omega)
  simp [decodeFrom, step, start, h₁, Nat.lt_succ_of_le hv]

theorem decodeFrom_two {v : Nat} (hv : 0x80 ≤ v ∧ v ≤ 0x7FF) (bs : List UInt8) :
    decodeFrom none (UInt8.ofNat (v / 64 % 32 + 192) :: UInt8.ofNat (v % 64 + 128) :: bs) =
      Char.ofNat v :: decodeFrom none bs := by
  have h₁ := toNat_ofNat (n := v / 64 % 32 + 192) (by omega)
  have h₂ := toNat_ofNat (n := v % 64 + 128) (by omega)
  have hbits : v / 64 % 32 + 192 - 0xC0 = v / 64 := by omega
  have hfirst : start (UInt8.ofNat (v / 64 % 32 + 192)).toNat =
      ([], some ⟨v / 64, 1, 0x80, 0xBF⟩) := by
    rw [h₁, start, if_neg (by omega), if_pos (by omega), hbits]
  have hwhole : 64 * (v / 64) + (v % 64 + 128 - 0x80) = v := by omega
  rw [decodeFrom_first hfirst, decodeFrom_last (by rw [h₂]; dsimp only; omega) rfl, h₂, hwhole]

theorem decodeFrom_three {v : Nat} (hv : 0x800 ≤ v ∧ v ≤ 0xFFFF) (hvalid : v < 0xD800 ∨ 0xDFFF < v)
    (bs : List UInt8) :
    decodeFrom none (UInt8.ofNat (v / 4096 % 16 + 224) :: UInt8.ofNat (v / 64 % 64 + 128) ::
      UInt8.ofNat (v % 64 + 128) :: bs) = Char.ofNat v :: decodeFrom none bs := by
  have h₁ := toNat_ofNat (n := v / 4096 % 16 + 224) (by omega)
  have h₂ := toNat_ofNat (n := v / 64 % 64 + 128) (by omega)
  have h₃ := toNat_ofNat (n := v % 64 + 128) (by omega)
  have hbits : v / 4096 % 16 + 224 - 0xE0 = v / 4096 := by omega
  have hfirst : start (UInt8.ofNat (v / 4096 % 16 + 224)).toNat =
      ([], some ⟨v / 4096, 2, if v / 4096 % 16 + 224 = 0xE0 then 0xA0 else 0x80,
        if v / 4096 % 16 + 224 = 0xED then 0x9F else 0xBF⟩) := by
    rw [h₁, start, if_neg (by omega), if_neg (by omega), if_pos (by omega), hbits]
  have hwhole : 64 * (64 * (v / 4096) + (v / 64 % 64 + 128 - 0x80)) + (v % 64 + 128 - 0x80) = v := by
    omega
  rw [decodeFrom_first hfirst,
    decodeFrom_middle (by rw [h₂]; dsimp only; split <;> split <;> omega) (by simp),
    decodeFrom_last (by rw [h₃]; dsimp only; omega) rfl, h₂, h₃, hwhole]

theorem decodeFrom_four {v : Nat} (hv : 0x10000 ≤ v ∧ v < 0x110000) (bs : List UInt8) :
    decodeFrom none (UInt8.ofNat (v / 262144 % 8 + 240) :: UInt8.ofNat (v / 4096 % 64 + 128) ::
      UInt8.ofNat (v / 64 % 64 + 128) :: UInt8.ofNat (v % 64 + 128) :: bs) =
      Char.ofNat v :: decodeFrom none bs := by
  have h₁ := toNat_ofNat (n := v / 262144 % 8 + 240) (by omega)
  have h₂ := toNat_ofNat (n := v / 4096 % 64 + 128) (by omega)
  have h₃ := toNat_ofNat (n := v / 64 % 64 + 128) (by omega)
  have h₄ := toNat_ofNat (n := v % 64 + 128) (by omega)
  have hbits : v / 262144 % 8 + 240 - 0xF0 = v / 262144 := by omega
  have hfirst : start (UInt8.ofNat (v / 262144 % 8 + 240)).toNat =
      ([], some ⟨v / 262144, 3, if v / 262144 % 8 + 240 = 0xF0 then 0x90 else 0x80,
        if v / 262144 % 8 + 240 = 0xF4 then 0x8F else 0xBF⟩) := by
    rw [h₁, start, if_neg (by omega), if_neg (by omega), if_neg (by omega), if_pos (by omega), hbits]
  have hwhole : 64 * (64 * (64 * (v / 262144) + (v / 4096 % 64 + 128 - 0x80)) +
      (v / 64 % 64 + 128 - 0x80)) + (v % 64 + 128 - 0x80) = v := by
    omega
  rw [decodeFrom_first hfirst,
    decodeFrom_middle (by rw [h₂]; dsimp only; split <;> split <;> omega) (by simp),
    decodeFrom_middle (by rw [h₃]; dsimp only; omega) (by simp),
    decodeFrom_last (by rw [h₄]; dsimp only; omega) rfl, h₂, h₃, h₄, hwhole]

theorem decodeFrom_char (c : Char) (bs : List UInt8) :
    decodeFrom none (String.utf8EncodeChar c ++ bs) = c :: decodeFrom none bs := by
  have hvalid : c.val.toNat < 0xD800 ∨ 0xDFFF < c.val.toNat ∧ c.val.toNat < 0x110000 := c.valid
  have hc : Char.ofNat c.val.toNat = c := Char.ofNat_toNat c
  rw [String.utf8EncodeChar]
  generalize c.val.toNat = v at hvalid hc
  subst hc
  by_cases hone : v ≤ 0x7F
  · rw [if_pos hone]
    exact decodeFrom_one hone bs
  · by_cases htwo : v ≤ 0x7FF
    · rw [if_neg hone, if_pos htwo]
      exact decodeFrom_two (by omega) bs
    · by_cases hthree : v ≤ 0xFFFF
      · rw [if_neg hone, if_neg htwo, if_pos hthree]
        exact decodeFrom_three (by omega) (by omega) bs
      · rw [if_neg hone, if_neg htwo, if_neg hthree]
        exact decodeFrom_four (by omega) bs

theorem decode_encoded (s : String) : decode (encode s) = s := by
  have hchars (cs : List Char) : decodeFrom none (cs.flatMap String.utf8EncodeChar) = cs := by
    induction cs with
    | nil => rfl
    | cons c cs ih => rw [List.flatMap_cons, decodeFrom_char, ih]
  rw [decode, encode_eq, hchars, String.ofList_toList]

/-- Only a line feed has the byte of a line feed. -/
theorem ten_not_mem_utf8EncodeChar {c : Char} (hc : c ≠ '\n') : 10 ∉ String.utf8EncodeChar c := by
  have hbyte {n : Nat} (hn : n < 256) (hne : n ≠ 10) : 10 ≠ UInt8.ofNat n := by
    intro he
    exact hne ((toNat_ofNat hn).symm.trans (congrArg UInt8.toNat he.symm))
  have hv : c.val.toNat ≠ 10 := fun he => hc (by rw [← Char.ofNat_toNat c, Char.toNat, he])
  rw [String.utf8EncodeChar]
  generalize c.val.toNat = v at hv
  -- All bytes of a longer character are above those of ASCII.
  split
  · exact List.not_mem_cons_of_ne_of_not_mem (hbyte (by omega) hv) List.not_mem_nil
  · split
    · simp only [List.mem_cons, List.not_mem_nil, or_false, not_or]
      exact ⟨hbyte (by omega) (by omega), hbyte (by omega) (by omega)⟩
    · split <;> simp only [List.mem_cons, List.not_mem_nil, or_false, not_or]
      · exact ⟨hbyte (by omega) (by omega), hbyte (by omega) (by omega),
          hbyte (by omega) (by omega)⟩
      · exact ⟨hbyte (by omega) (by omega), hbyte (by omega) (by omega),
          hbyte (by omega) (by omega), hbyte (by omega) (by omega)⟩

theorem ten_not_mem_encode {s : String} (hs : '\n' ∉ s.toList) : 10 ∉ encode s := by
  rw [encode_eq, List.mem_flatMap]
  rintro ⟨c, hc, hten⟩
  exact ten_not_mem_utf8EncodeChar (fun he => hs (he ▸ hc)) hten

end PracticeShell.Text.Utf8
