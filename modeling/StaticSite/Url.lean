import StaticSite.Url.Host
/-!
Absolute URLs: `Url.ofText?` reads one as a browser does, and `Url.toText` writes it in its one
normal spelling.
-/
namespace StaticSite

open Url (Host)

-- What follows the host.
inductive Url.Path where
  -- A text of no structure, in a URL without a host.
  | plain (text : List Char)
  | segments (segments : List (List Char))
  deriving DecidableEq, Repr

structure Url where
  scheme : List Char
  username : List Char := []
  password : List Char := []
  host : Option Host := none
  port : Option Nat := none
  path : Url.Path := .segments []
  query : Option (List Char) := none
  fragment : Option (List Char) := none
  deriving DecidableEq, Repr

namespace Url

-- The schemes whose URLs have a domain as host, with their usual ports.
def specialSchemes : List (String × Option Nat) :=
  [("http", some 80), ("https", some 443), ("ws", some 80), ("wss", some 443), ("ftp", some 21),
   ("file", none)]

def isSpecialScheme (scheme : List Char) : Bool :=
  (specialSchemes.lookup (.ofList scheme)).isSome

def defaultPort? (scheme : List Char) : Option Nat :=
  (specialSchemes.lookup (.ofList scheme)).join

-- The text without blanks at its ends and without tabs and line breaks.
def cleaned (text : String) : List Char :=
  let isOuter (c : Char) := c.toNat ≤ 0x20
  let cs := ((text.toList.dropWhile isOuter).reverse.dropWhile isOuter).reverse
  cs.filter fun c => !(c == '\t' || c == '\n' || c == '\r')

-- Splits the scheme from what follows its colon, in small letters.
def splitScheme? (cs : List Char) : Option (List Char × List Char) :=
  let isSchemeChar (c : Char) := c.isAlphanum || c == '+' || c == '-' || c == '.'
  let scheme := cs.takeWhile isSchemeChar
  match cs.dropWhile isSchemeChar with
  | ':' :: rest =>
    if scheme.head?.any Char.isAlpha then some (scheme.map Char.toLower, rest) else none
  | _ => none

-- The parts of `cs` before the first `#`, from there the first `?`, and behind them.
def splitTail (cs : List Char) : List Char × Option (List Char) × Option (List Char) :=
  let front := cs.takeWhile (· ≠ '#')
  let fragment := match cs.dropWhile (· ≠ '#') with
    | _ :: rest => some rest
    | [] => none
  let query := match front.dropWhile (· ≠ '?') with
    | _ :: rest => some rest
    | [] => none
  (front.takeWhile (· ≠ '?'), query, fragment)

def isSlash (special : Bool) (c : Char) : Bool :=
  c == '/' || (special && c == '\\')

-- Whether a segment means the place it stands in, or the one above.
def isSingleDot (s : List Char) : Bool :=
  [".", "%2e"].contains (String.ofList (s.map Char.toLower))

def isDoubleDot (s : List Char) : Bool :=
  ["..", ".%2e", "%2e.", "%2e%2e"].contains (String.ofList (s.map Char.toLower))

-- Whether a segment is the letter of a drive and a colon or a bar.
def isDrive (s : List Char) : Bool :=
  match s with
  | [letter, mark] => letter.isAlpha && (mark == ':' || mark == '|')
  | _ => false

-- The segments without the last; the drive of a file stays. `segments` is reversed.
def shorten (file : Bool) (segments : List (List Char)) : List (List Char) :=
  match segments with
  | [drive] => if file && isDrive drive && drive.getLast? == some ':' then segments else []
  | _ => segments.tail

-- Adds segments to those before them, which are reversed.
def addSegments (file : Bool) : List (List Char) → List (List Char) → List (List Char)
  | done, [] => done.reverse
  | done, s :: rest =>
    let last := rest.isEmpty
    let done :=
      if isDoubleDot s then
        let done := shorten file done
        if last then [] :: done else done
      else if isSingleDot s then if last then [] :: done else done
      else if file && done.isEmpty && isDrive s then [s.headD 'C', ':'] :: done
      else encode inPathSet s :: done
    addSegments file done rest

-- Splits at every slash.
def splitSlashes (special : Bool) (cs : List Char) : List (List Char) :=
  cs.splitOnP (isSlash special)

-- The path that `cs` spells behind a host.
def pathOf (scheme cs : List Char) : Url.Path :=
  let special := isSpecialScheme scheme
  let file := scheme = "file".toList
  match cs with
  | [] => .segments (if special then [[]] else [])
  | c :: rest =>
    let body := if isSlash special c then rest else cs
    .segments (addSegments file [] (splitSlashes special body))

-- The user's name and password, which a colon parts.
def userinfo (cs : List Char) : List Char × List Char :=
  (encode inUserinfoSet (cs.takeWhile (· ≠ ':')),
    encode inUserinfoSet (cs.dropWhile (· ≠ ':')).tail)

-- Splits a host from the port; a colon in brackets belongs to the host.
def splitPort (cs : List Char) : List Char × Option (List Char) :=
  let (host, rest) := go false cs
  match rest with
  | ':' :: port => (host, some port)
  | _ => (host, none)
where
  go (inBrackets : Bool) : List Char → List Char × List Char
  | [] => ([], [])
  | c :: rest =>
    if c = ':' ∧ !inBrackets then ([], c :: rest)
    else
      let inside := if c = '[' then true else if c = ']' then false else inBrackets
      let (host, rest) := go inside rest
      (c :: host, rest)

def port? (scheme : List Char) : Option (List Char) → Option (Option Nat)
  | none | some [] => some none
  | some ds => do
    let n ← Text.ofDigits? 10 ds
    if 65535 < n then none else some (if defaultPort? scheme = some n then none else some n)

-- Reads what stands between two slashes and the path: user, host and port.
def withAuthority? (scheme cs : List Char) : Option Url := do
  let special := isSpecialScheme scheme
  let front := cs.takeWhile (!isSlash special ·)
  let rest := cs.drop front.length
  let afterUser := (front.reverse.takeWhile (· ≠ '@')).reverse
  let hasUser := front.contains '@'
  let (username, password) :=
    if hasUser then userinfo (front.take (front.length - afterUser.length - 1)) else ([], [])
  let (hostText, portText) := splitPort afterUser
  if hostText.isEmpty ∧ (special ∨ hasUser ∨ portText.isSome) then none
  let host ← Host.ofText? special hostText
  let port ← port? scheme portText
  return { scheme, username, password, host := some host, port, path := pathOf scheme rest }

-- Reads what follows `file:`.
def file? (cs : List Char) : Option Url := do
  let scheme := "file".toList
  match cs with
  | a :: b :: rest =>
    if isSlash true a && isSlash true b then
      let name := rest.takeWhile (!isSlash true ·)
      let behind := rest.drop name.length
      -- The letter of a drive is the first segment and no host.
      if isDrive name then
        return { scheme, host := some .empty, path := pathOf scheme ('/' :: rest) }
      let host ← if name.isEmpty then some .empty else Host.ofText? true name
      let host := if host = .domain "localhost".toList then .empty else host
      return { scheme, host := some host, path := pathOf scheme behind }
    else return { scheme, host := some .empty, path := pathOf scheme cs }
  | _ => return { scheme, host := some .empty, path := pathOf scheme cs }

-- Reads an absolute URL.
def ofText? (text : String) : Option Url := do
  let (scheme, rest) ← splitScheme? (cleaned text)
  let special := isSpecialScheme scheme
  let (front, query, fragment) := splitTail rest
  let url ←
    if scheme = "file".toList then file? front
    else if special then withAuthority? scheme (front.dropWhile (isSlash true))
    else match front with
      | '/' :: '/' :: rest => withAuthority? scheme rest
      | '/' :: _ => some { scheme, path := pathOf scheme front }
      | _ => some { scheme, path := .plain (encode isControl front) }
  return { url with
    query := query.map (encode (inQuerySet special))
    fragment := fragment.map (encode inFragmentSet) }

def authorityText (u : Url) (host : Host) : List Char :=
  let user :=
    if u.username.isEmpty ∧ u.password.isEmpty then []
    else u.username ++ (if u.password.isEmpty then [] else ':' :: u.password) ++ ['@']
  let port := match u.port with
    | some n => ':' :: Nat.toDigits 10 n
    | none => []
  '/' :: '/' :: (user ++ host.toText ++ port)

def pathText (u : Url) : List Char :=
  match u.path with
  | .plain text => text
  | .segments segments =>
    let text := segments.flatMap ('/' :: ·)
    -- Without a host, two slashes would be taken for the start of one.
    if u.host.isNone ∧ 1 < segments.length ∧ segments.head? = some [] then '/' :: '.' :: text
    else text

def toText (u : Url) : String :=
  .ofList (u.scheme ++ [':'] ++ (u.host.map u.authorityText).getD [] ++ u.pathText ++
    (u.query.map ('?' :: ·)).getD [] ++ (u.fragment.map ('#' :: ·)).getD [])

end Url

end StaticSite
