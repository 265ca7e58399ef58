import StaticSite.Text.Digits
/-!
Percent-encoding: a character that may not stand in a part of a URL is written as its octets, each
as `%` and two hexadecimal digits. Main statement: text without characters of the set is left alone
(`encode_eq_self`).
-/
namespace StaticSite.Url

-- The octets of a character in UTF-8.
def octets (c : Char) : List UInt8 :=
  (String.singleton c).toUTF8.toList

def encodeOctet (b : UInt8) : List Char :=
  ['%', (Text.hexChar (b.toNat / 16)).toUpper, (Text.hexChar (b.toNat % 16)).toUpper]

-- Encodes the characters of `set` and leaves the others.
def encode (set : Char → Bool) (cs : List Char) : List Char :=
  cs.flatMap fun c => if set c then (octets c).flatMap encodeOctet else [c]

-- The octets that a text stands for.
def decodeOctets : List Char → List UInt8
  | '%' :: a :: b :: rest =>
    if Text.isHexDigit a && Text.isHexDigit b then
      .ofNat (Text.ofHex [a, b]) :: decodeOctets rest
    else octets '%' ++ decodeOctets (a :: b :: rest)
  | c :: rest => octets c ++ decodeOctets rest
  | [] => []

-- The text that an encoded text stands for, if its octets are UTF-8.
def decode? (cs : List Char) : Option (List Char) :=
  (String.fromUTF8? ⟨(decodeOctets cs).toArray⟩).map String.toList

-- Characters that no part of a URL may hold.
def isControl (c : Char) : Bool :=
  c.toNat < 0x20 || 0x7F ≤ c.toNat

def inFragmentSet (c : Char) : Bool :=
  isControl c || " \"<>\x60".toList.contains c

def inQuerySet (special : Bool) (c : Char) : Bool :=
  isControl c || " \"#<>".toList.contains c || (special && c == '\'')

def inPathSet (c : Char) : Bool :=
  inFragmentSet c || "#?^\x7b\x7d".toList.contains c

def inUserinfoSet (c : Char) : Bool :=
  inPathSet c || "/:;=@[\\]|".toList.contains c

theorem encode_eq_self {set : Char → Bool} {cs : List Char} (h : ∀ c ∈ cs, set c = false) :
    encode set cs = cs := by
  induction cs with
  | nil => rfl
  | cons c cs ih =>
    have hc := h c List.mem_cons_self
    have hs := ih fun x hx => h x (List.mem_cons_of_mem _ hx)
    simp only [encode, List.flatMap_cons, hc] at hs ⊢
    simp [hs]

end StaticSite.Url
