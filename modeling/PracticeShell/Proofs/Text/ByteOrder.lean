import PracticeShell.Proofs.Text.Utf8

/-! The order of texts by their characters is that of their bytes. Of two characters the later one has
the greater byte at the first place where their bytes differ, so neither begins with the other. -/
namespace PracticeShell.Text.Utf8
variable {v w : Nat} {c d : Char} {x y : List UInt8}

theorem cons_lt_cons (hw : w < 256) (hle : v ≤ w) (hrest : v = w → x < y) :
    UInt8.ofNat v :: x < UInt8.ofNat w :: y := by
  rw [List.cons_lt_cons_iff, UInt8.lt_iff_toNat_lt, toNat_ofNat hw,
    toNat_ofNat (Nat.lt_of_le_of_lt hle hw)]
  obtain hlt | heq := Nat.lt_or_eq_of_le hle
  · exact .inl hlt
  · exact .inr ⟨congrArg UInt8.ofNat heq, hrest heq⟩

theorem cons_lt_cons_of_lt (hw : w < 256) (hlt : v < w) :
    UInt8.ofNat v :: x < UInt8.ofNat w :: y :=
  cons_lt_cons hw (Nat.le_of_lt hlt) fun heq => absurd heq (Nat.ne_of_lt hlt)

/-- The first byte grows with the number of bytes; for the same number the bytes are digits to the
base 64. -/
theorem utf8EncodeChar_append_lt (h : c < d) (x y : List UInt8) :
    String.utf8EncodeChar c ++ x < String.utf8EncodeChar d ++ y := by
  have hvalid : d.val.toNat < 0xD800 ∨ 0xDFFF < d.val.toNat ∧ d.val.toNat < 0x110000 := d.valid
  have hlt : c.val.toNat < d.val.toNat := h
  rw [String.utf8EncodeChar, String.utf8EncodeChar]
  generalize c.val.toNat = v at hlt
  generalize d.val.toNat = w at hlt hvalid
  by_cases hone : v ≤ 0x7F
  · rw [if_pos hone]
    split
    · exact cons_lt_cons_of_lt (by omega) (by omega)
    · split
      · exact cons_lt_cons_of_lt (by omega) (by omega)
      · split <;> exact cons_lt_cons_of_lt (by omega) (by omega)
  · rw [if_neg hone, if_neg (by omega : ¬ w ≤ 0x7F)]
    by_cases htwo : v ≤ 0x7FF
    · rw [if_pos htwo]
      split
      · exact cons_lt_cons (by omega) (by omega) fun _ => cons_lt_cons_of_lt (by omega) (by omega)
      · split <;> exact cons_lt_cons_of_lt (by omega) (by omega)
    · rw [if_neg htwo, if_neg (by omega : ¬ w ≤ 0x7FF)]
      by_cases hthree : v ≤ 0xFFFF
      · rw [if_pos hthree]
        split
        · exact cons_lt_cons (by omega) (by omega) fun _ =>
            cons_lt_cons (by omega) (by omega) fun _ => cons_lt_cons_of_lt (by omega) (by omega)
        · exact cons_lt_cons_of_lt (by omega) (by omega)
      · rw [if_neg hthree, if_neg (by omega : ¬ w ≤ 0xFFFF)]
        exact cons_lt_cons (by omega) (by omega) fun _ => cons_lt_cons (by omega) (by omega) fun _ =>
          cons_lt_cons (by omega) (by omega) fun _ => cons_lt_cons_of_lt (by omega) (by omega)

theorem flatMap_utf8EncodeChar_lt {cs ds : List Char} (h : cs < ds) :
    cs.flatMap String.utf8EncodeChar < ds.flatMap String.utf8EncodeChar := by
  induction cs generalizing ds with
  | nil =>
    cases ds with
    | nil => exact absurd h (List.lt_irrefl _)
    | cons d ds =>
      obtain ⟨b, bs, hd⟩ := List.exists_cons_of_ne_nil (String.utf8EncodeChar_ne_nil (c := d))
      rw [List.flatMap_nil, List.flatMap_cons, hd]
      exact List.nil_lt_cons b _
  | cons c cs ih =>
    cases ds with
    | nil => exact absurd h (List.not_lt_nil _)
    | cons d ds =>
      rw [List.flatMap_cons, List.flatMap_cons]
      obtain hcd | ⟨rfl, hrest⟩ := List.cons_lt_cons_iff.1 h
      · exact utf8EncodeChar_append_lt hcd _ _
      · exact List.append_left_lt (ih hrest)

theorem encode_lt_encode {s t : String} (h : s < t) : encode s < encode t := by
  rw [encode_eq, encode_eq]
  exact flatMap_utf8EncodeChar_lt h

end PracticeShell.Text.Utf8
