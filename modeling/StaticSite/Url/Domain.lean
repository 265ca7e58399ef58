import StaticSite.Text.CaseFold
import StaticSite.Text.CharRanges
import StaticSite.Url.Percent
import StaticSite.Url.Punycode
/-!
Domain names in ASCII. Letters lose their case and width, ignorable characters vanish, and a label
that still holds a character above ASCII is written in Punycode behind `xn--`.
-/
namespace StaticSite.Url

-- Characters that count as nothing in a domain: joiners, hyphenation marks, variation selectors.
def ignorable : Text.CharRanges :=
  .ofText "AD 34F 180B-180F 200B 2060 2064 FE00-FE0F FEFF E0100-E01EF"

-- Characters that no domain holds: controls, marks of direction, private and unassigned ones.
def forbiddenInLabel : Text.CharRanges :=
  .ofLines
   ["80-9F 61C 2000-200A 200C-200F 2028-202E 2061-2063 2065-206F 2FF0-2FFF E000-F8FF",
    "FDD0-FDEF FFF0-FFFF 1FFFE-1FFFF 2FFFE-2FFFF E0000-E00FF E01F0-10FFFF"]

-- The marks that may not begin a label.
def combiningMarks : Text.CharRanges :=
  .ofLines
   ["300-36F 483-489 591-5BD 610-61A 64B-65F 900-903 93A-93C 93E-94F 1AB0-1AFF 1DC0-1DFF",
    "20D0-20F0 302A-302F 3099-309A FE20-FE2F"]

-- What a character becomes in a domain. The sharp s and the final sigma are kept.
def mapDomainChar (c : Char) : List Char :=
  if c = '\u3002' ∨ c = '\uFF0E' ∨ c = '\uFF61' then ['.']
  else if c = '\u00DF' ∨ c = '\u03C2' then [c]
  else if c = '\u1E9E' then ['\u00DF']
  else if '\uFF01' ≤ c ∧ c ≤ '\uFF5E' then [(Char.ofNat (c.toNat - 0xFEE0)).toLower]
  else if c = '\u3000' ∨ c = '\u00A0' then [' ']
  else if ignorable.contains c then []
  else Text.foldChar c

-- Whether a label that is not in ASCII can be written in Punycode.
def isValidLabel (cs : List Char) : Bool :=
  !cs.any forbiddenInLabel.contains && !cs.head?.any combiningMarks.contains

-- A label in ASCII. One that is already encoded has to be as it would be encoded.
def asciiLabel? (cs : List Char) : Option (List Char) :=
  if cs.any (128 ≤ ·.toNat) then
    if isValidLabel cs then some ("xn--".toList ++ Punycode.encode cs) else none
  else if cs.take 4 = "xn--".toList then do
    let plain ← Punycode.decode? (cs.drop 4)
    if plain.any (128 ≤ ·.toNat) ∧ isValidLabel plain ∧ plain.flatMap mapDomainChar = plain ∧
        Punycode.encode plain = cs.drop 4 then some cs
    else none
  else some cs

-- Characters that a domain may not hold once it is in ASCII.
def isForbiddenInDomain (c : Char) : Bool :=
  c.toNat ≤ 0x20 || 0x7F ≤ c.toNat || "#/:<>?@[\\]^|%".toList.contains c

def asciiDomain? (cs : List Char) : Option (List Char) := do
  let labels ← ((cs.flatMap mapDomainChar).splitOn '.').mapM asciiLabel?
  let domain := ['.'].intercalate labels
  if domain.isEmpty ∨ domain.any isForbiddenInDomain then none else some domain

end StaticSite.Url
