import Mathlib.Tactic.SplitIfs
/-!
The bytes of a text. Main statement: they are in the order of its characters (`bytes_lt_bytes`).
-/
namespace StaticSite.Text

def bytes (text : String) : List UInt8 :=
  text.toUTF8.data.toList

theorem bytes_eq (text : String) : bytes text = text.toList.flatMap String.utf8EncodeChar := by
  have h : text.toUTF8 = text.toList.utf8Encode := String.utf8Encode_toList.symm
  rw [bytes, h, List.utf8Encode]
  simp

-- Of two characters, the greater one has the greater byte where their bytes first differ.
theorem utf8EncodeChar_append_lt {c d : Char} (h : c < d) (s t : List UInt8) :
    String.utf8EncodeChar c ++ s < String.utf8EncodeChar d ++ t := by
  have hd : d.val.toNat < 0x110000 := by
    have := d.valid
    simp only [UInt32.isValidChar, Nat.isValidChar] at this
    omega
  have h : c.val.toNat < d.val.toNat := h
  unfold String.utf8EncodeChar
  generalize c.val.toNat = m at h
  generalize d.val.toNat = n at h hd
  -- a byte after the first holds one digit to the base 64
  have h₂ (k : Nat) : k / 4096 = k / 64 / 64 := by omega
  have h₃ (k : Nat) : k / 262144 = k / 64 / 64 / 64 := by omega
  simp only [h₂, h₃]
  split_ifs <;> simp only [List.cons_append, List.nil_append, List.cons_lt_cons_iff,
    UInt8.lt_iff_toNat_lt, ← UInt8.toNat_inj, UInt8.toNat_ofNat'] <;> omega

theorem flatMap_utf8EncodeChar_lt {cs ds : List Char} (h : cs < ds) :
    cs.flatMap String.utf8EncodeChar < ds.flatMap String.utf8EncodeChar := by
  induction ds generalizing cs
  case nil => simp at h
  case cons d ds hi =>
    cases cs
    case nil =>
      obtain ⟨b, bs, hb⟩ := List.exists_cons_of_ne_nil (String.utf8EncodeChar_ne_nil (c := d))
      simp [hb]
    case cons c cs =>
      rw [List.flatMap_cons, List.flatMap_cons]
      rcases List.cons_lt_cons_iff.mp h with hl | ⟨rfl, hl⟩
      case inl => exact utf8EncodeChar_append_lt hl _ _
      case inr => exact List.append_left_lt (hi hl)

-- A text that stands before another one does so by its bytes.
theorem bytes_lt_bytes {a b : String} (h : a < b) : bytes a < bytes b := by
  rw [bytes_eq, bytes_eq]
  exact flatMap_utf8EncodeChar_lt h

end StaticSite.Text
