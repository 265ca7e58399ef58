import StaticSite.Text.CharRanges
/-!
Punctuation characters. In ASCII these are all printing characters but letters, digits and the
blank; beyond it, the general categories `P*` of Unicode 7, up to U+1BC9F.
-/
namespace StaticSite.Text

def isAsciiPunctuation (c : Char) : Bool :=
  ('!' ≤ c && c ≤ '/') || (':' ≤ c && c ≤ '@') || ('[' ≤ c && c ≤ '\x60') ||
    ('\x7b' ≤ c && c ≤ '~')

def punctuationMarks : CharRanges :=
  .ofLines
   ["A1 A7 AB B6-B7 BB BF 37E 387 55A-55F 589-58A 5BE 5C0 5C3 5C6 5F3-5F4 609-60A 60C-60D 61B 61E-61F",
    "66A-66D 6D4 700-70D 7F7-7F9 830-83E 85E 964-965 970 AF0 DF4 E4F E5A-E5B F04-F12 F14 F3A-F3D F85",
    "FD0-FD4 FD9-FDA 104A-104F 10FB 1360-1368 1400 166E 169B-169C 16EB-16ED 1735-1736 17D4-17D6",
    "17D8-17DA 1800-180A 1944-1945 1A1E-1A1F 1AA0-1AA6 1AA8-1AAD 1B5A-1B60 1BFC-1BFF 1C3B-1C3F",
    "1C7E-1C7F 1CC0-1CC7 1CD3 2010-2027 2030-2043 2045-2051 2053-205E 207D-207E 208D-208E 2308-230B",
    "2329-232A 2768-2775 27C5-27C6 27E6-27EF 2983-2998 29D8-29DB 29FC-29FD 2CF9-2CFC 2CFE-2CFF 2D70",
    "2E00-2E2E 2E30-2E42 3001-3003 3008-3011 3014-301F 3030 303D 30A0 30FB A4FE-A4FF A60D-A60F A673",
    "A67E A6F2-A6F7 A874-A877 A8CE-A8CF A8F8-A8FA A92E-A92F A95F A9C1-A9CD A9DE-A9DF AA5C-AA5F",
    "AADE-AADF AAF0-AAF1 ABEB FD3E-FD3F FE10-FE19 FE30-FE52 FE54-FE61 FE63 FE68 FE6A-FE6B FF01-FF03",
    "FF05-FF0A FF0C-FF0F FF1A-FF1B FF1F-FF20 FF3B-FF3D FF3F FF5B FF5D FF5F-FF65 10100-10102 1039F",
    "103D0 1056F 10857 1091F 1093F 10A50-10A58 10A7F 10AF0-10AF6 10B39-10B3F 10B99-10B9C 11047-1104D",
    "110BB-110BC 110BE-110C1 11140-11143 11174-11175 111C5-111C8 111CD 11238-1123D 114C6 115C1-115C9",
    "11641-11643 12470-12474 16A6E-16A6F 16AF5 16B37-16B3B 16B44 1BC9F"]

def isPunctuation (c : Char) : Bool :=
  if c.toNat < 128 then isAsciiPunctuation c else punctuationMarks.contains c

theorem not_isAlphanum_of_isAsciiPunctuation {c : Char} (h : isAsciiPunctuation c) :
    ¬c.isAlphanum := by
  have hc : c.isAlphanum = (decide (c.val ≥ 65 ∧ c.val ≤ 90) ||
      (c.val ≥ 97 && c.val ≤ 122) || (c.val ≥ 48 && c.val ≤ 57)) :=
    rfl
  rw [hc]
  simp only [isAsciiPunctuation, Bool.or_eq_true, Bool.and_eq_true, decide_eq_true_eq,
    Char.le_def, UInt32.le_iff_toNat_le, Char.reduceVal, UInt32.reduceToNat] at *
  omega

end StaticSite.Text
