import Mathlib.Data.List.Infix
import ZkNote.Fallible
import ZkNote.StdText
import ZkNote.TrimmedText
import ZkNote.VaultStore

namespace ZkNote.ServerOrigin
open Fallible StdText VaultStore

-- `URL` of the browser.
structure WebUrl where
  protocol : String
  username : String
  password : String
  search : String
  hash : String
  pathname : String
  origin : String
  deriving DecidableEq, Repr

-- `url::Url`; its origin as `ascii_serialization` writes it.
structure Url where
  scheme : String
  username : String
  password : Option String
  hostStr : Option String
  path : String
  query : Option String
  fragment : Option String
  origin : String
  deriving DecidableEq, Repr

def Printed (text : String) : Prop := ∀ c ∈ text.toList, 33 ≤ c.toNat ∧ c.toNat ≤ 126

instance : Decidable (Printed text) :=
  decidable_of_iff (text.toList.all (fun c => decide (33 ≤ c.toNat ∧ c.toNat ≤ 126)) = true) (by simp [Printed])

-- The two parsers follow the URL standard: the origin of an HTTP or HTTPS address is
-- its scheme and host, and is itself such an address with nothing besides.
structure UrlParsers where
  newUrl : String → Except String WebUrl
  parse : String → Except String Url
  webOrigin : ∀ text url, newUrl text = .ok url → url.protocol = "https:" ∨ url.protocol = "http:" →
    (∃ host, url.origin = url.protocol ++ "//" ++ host ∧ Printed host) ∧
      newUrl url.origin = .ok ⟨url.protocol,"","","","","/",url.origin⟩
  urlOrigin : ∀ text url, parse text = .ok url → url.scheme = "http" ∨ url.scheme = "https" →
    (∃ host, url.origin = url.scheme ++ "://" ++ host ∧ Printed host) ∧
      parse url.origin = .ok ⟨url.scheme,"",none,url.hostStr,"/",none,none,url.origin⟩

def digit (c : Char) : Bool := decide ('0' ≤ c ∧ c ≤ '9')

-- Web. `/^host(?::\d+)?$/`, for hosts without a colon.
def withPort (host : List Char → Bool) (input : List Char) : Bool :=
  host (input.takeWhile (· ≠ ':')) &&
    (match input.dropWhile (· ≠ ':') with
    | [] => true
    | _ :: port => !port.isEmpty && port.all digit)

def bareHost (input : String) : Bool :=
  withPort (fun host => !host.isEmpty &&
    host.all (fun c => decide ('a' ≤ c ∧ c ≤ 'z' ∨ 'A' ≤ c ∧ c ≤ 'Z') || digit c || decide (c = '.' ∨ c = '-'))) input.toList

def localHost (input : String) : Bool :=
  withPort (fun host => decide (host.map Char.toLower = "localhost".toList) ||
    decide ((host.splitOn '.').length = 4) &&
      (host.splitOn '.').all (fun part => decide (1 ≤ part.length ∧ part.length ≤ 3) && part.all digit)) input.toList

def normalizeServerOrigin (newUrl : String → Except String WebUrl) (serverUrl : String) : Except String String := do
  let input := trimBy (fun c => jsSpaces.contains c.toNat) serverUrl
  let url ← newUrl (if bareHost input then (if localHost input then "http" else "https") ++ "://" ++ input else input)
  if ¬(url.protocol = "https:" ∨ url.protocol = "http:") then .error "Unsupported server URL"
  else if url.username ≠ "" ∨ url.password ≠ "" ∨ url.search ≠ "" ∨ url.hash ≠ "" ∨ url.pathname ≠ "/" then
    .error "Server URL must be an origin without credentials or a path"
  else return url.origin

-- Native. `IpAddr::from_str`, which reads an IPv4 address before an IPv6 address.
inductive IpAddr where
  | v4 (octets : List Nat)
  | v6 (segments : List Nat)
  deriving DecidableEq, Repr

def toDigit (radix : Nat) (c : Char) : Option Nat :=
  let value := if digit c then c.toNat-48 else if 'a' ≤ c ∧ c ≤ 'z' then c.toNat-87 else if 'A' ≤ c ∧ c ≤ 'Z' then c.toNat-55 else radix
  if value < radix then some value else none

def readNumber (radix maxDigits top : Nat) (allowZeroPrefix : Bool) (text : List Char) : Option (Nat × List Char) :=
  let digits := text.takeWhile (fun c => (toDigit radix c).isSome)
  let value := digits.foldl (fun n c => n*radix+(toDigit radix c).getD 0) 0
  if digits = [] ∨ maxDigits < digits.length ∨ (!allowZeroPrefix ∧ digits.head? = some '0' ∧ 1 < digits.length) ∨ top < value then none
  else some (value,text.drop digits.length)

def readSeparator (separator : Char) (index : Nat) (read : List Char → Option (α × List Char)) (text : List Char) : Option (α × List Char) :=
  if index = 0 then read text
  else match text with
  | [] => none
  | c :: rest => if c = separator then read rest else none

def readIpv4Addr (text : List Char) : Option (List Nat × List Char) := do
  let octet := readNumber 10 3 255 false
  let (a,text) ← readSeparator '.' 0 octet text
  let (b,text) ← readSeparator '.' 1 octet text
  let (c,text) ← readSeparator '.' 2 octet text
  let (d,text) ← readSeparator '.' 3 octet text
  return ([a,b,c,d],text)

-- The groups read, whether they end in an IPv4 address, and the rest of the text.
def readGroups : Nat → Nat → List Char → List Nat × Bool × List Char
  | 0,_,text => ([],false,text)
  | left+1,index,text =>
    match if left = 0 then none else readSeparator ':' index readIpv4Addr text with
    | some ([a,b,c,d],rest) => ([a*256+b,c*256+d],true,rest)
    | _ =>
      match readSeparator ':' index (readNumber 16 4 65535 true) text with
      | none => ([],false,text)
      | some (group,rest) =>
        let (groups,ipv4,rest) := readGroups left (index+1) rest
        (group :: groups,ipv4,rest)

def readIpv6Addr (text : List Char) : Option (List Nat × List Char) :=
  let (head,ipv4,rest) := readGroups 8 0 text
  if head.length = 8 then some (head,rest)
  else if ipv4 then none
  else match rest with
  | ':' :: ':' :: rest =>
    let (tail,_,rest) := readGroups (8-(head.length+1)) 0 rest
    some (head ++ List.replicate (8-head.length-tail.length) 0 ++ tail,rest)
  | _ => none

def IpAddr.fromStr (text : List Char) : Option IpAddr :=
  match (readIpv4Addr text).map (fun read => (IpAddr.v4 read.1,read.2)) <|> (readIpv6Addr text).map (fun read => (IpAddr.v6 read.1,read.2)) with
  | some (ip,[]) => some ip
  | _ => none

def IpAddr.isLoopback : IpAddr → Bool
  | .v4 octets => octets.head? = some 127
  | .v6 segments => segments = [0,0,0,0,0,0,0,1]

def isLoopbackHost (url : Url) : Bool :=
  match url.hostStr with
  | none => false
  | some host =>
    if host.toList.map Char.toLower = "localhost".toList then true
    else match IpAddr.fromStr ((host.toList.dropWhile (· = '[')).rdropWhile (· = ']')) with
    | some ip => ip.isLoopback
    | none => false

def validateAndNormalizeServerUrl (parse : String → Except String Url) (raw : String) : Except String String := do
  let trimmed := trim raw
  if trimmed = "" then .error "Server URL cannot be empty"
  else
    let isLocal := startsWith trimmed "localhost" || startsWith trimmed "127." || startsWith trimmed "[::1]" || startsWith trimmed "::1"
    let urlToParse := if "://".toList <:+: trimmed.toList then trimmed else (if isLocal then "http://" else "https://") ++ trimmed
    match parse urlToParse with
    | .error e => .error ("Invalid server URL '" ++ trimmed ++ "': " ++ e)
    | .ok parsed =>
      if parsed.scheme ≠ "http" ∧ parsed.scheme ≠ "https" then
        .error ("Unsupported server URL scheme '" ++ parsed.scheme ++ "'. Only HTTP and HTTPS are supported.")
      else if parsed.username ≠ "" ∨ parsed.password ≠ none then .error "Server URL must not contain credentials (username or password)."
      else if parsed.query ≠ none then .error "Server URL must not contain query parameters."
      else if parsed.fragment ≠ none then .error "Server URL must not contain URL fragments."
      else if parsed.path ≠ "" ∧ parsed.path ≠ "/" then .error "Server URL must be an origin without a path component."
      else if parsed.hostStr = none then .error "Server URL must specify a valid host."
      else if parsed.scheme = "http" ∧ !isLoopbackHost parsed then
        .error ("HTTPS is required for remote servers. Insecure HTTP is only permitted for local loopback development " ++
          "(localhost, 127.0.0.1, [::1]).")
      else if parsed.origin = "null" then .error "Server URL produced an opaque origin."
      else return parsed.origin

example : (["127.0.0.1","[::1]","[::ffff:127.0.0.1]","LOCALHOST","127.1","10.0.0.1"].map (fun host =>
    isLoopbackHost ⟨"http","",none,some host,"/",none,none,"http://" ++ host⟩)) = [true,true,false,true,false,false] := by decide +kernel

variable {urls : UrlParsers} {text origin : String}

theorem trimmed_solid {space : Char → Bool} (solid : ∀ c ∈ text.toList, space c = false) : trimBy space text = text := by
  have bare : TrimmedText.Bare space text.toList := by
    rintro c (first | last)
    · exact solid c (List.mem_of_head? first)
    · exact solid c (List.mem_of_getLast? last)
  have same : trimBy space text = String.ofList (TrimmedText.trim space text.toList) := rfl
  rw [same,TrimmedText.trim_bare bare,String.ofList_toList]

theorem printed_solid {c : Char} (printed : 33 ≤ c.toNat ∧ c.toNat ≤ 126) : isWhitespace c = false ∧ jsSpaces.contains c.toNat = false := by
  constructor
  · simp [isWhitespace]
    omega
  · rw [List.contains_eq_mem,decide_eq_false_iff_not]
    simp [jsSpaces]
    omega

theorem printed_append {front back : String} (first : Printed front) (second : Printed back) : Printed (front ++ back) := by
  intro c inside
  rw [String.toList_append,List.mem_append] at inside
  exact inside.elim (first c) (second c)

-- An origin is no bare host: a slash follows its first colon.
theorem bare_origin {protocol : String} (either : protocol = "https:" ∨ protocol = "http:") (host : String) : bareHost (protocol ++ "//" ++ host) = false := by
  rw [bareHost,String.toList_append,String.toList_append]
  rcases either with rfl | rfl
  · simp [withPort,digit]
  · simp [withPort,digit]

theorem normalize_cases {newUrl : String → Except String WebUrl} (normal : normalizeServerOrigin newUrl text = .ok origin) :
    ∃ address url, newUrl address = .ok url ∧ (url.protocol = "https:" ∨ url.protocol = "http:") ∧ url.origin = origin := by
  obtain ⟨url,parsed,kept⟩ := bind_done normal
  split at kept
  · cases kept
  · rename_i scheme
    split at kept
    · cases kept
    · cases kept
      exact ⟨_,url,parsed,not_not.mp scheme,rfl⟩

-- A server's origin is its own normal form.
theorem normalize_again (normal : normalizeServerOrigin urls.newUrl text = .ok origin) :
    normalizeServerOrigin urls.newUrl origin = .ok origin ∧ blank jsSpaces origin = false := by
  obtain ⟨address,url,parsed,either,rfl⟩ := normalize_cases normal
  obtain ⟨⟨host,spelled,printed⟩,again⟩ := urls.webOrigin address url parsed either
  have scheme : Printed (url.protocol ++ "//") := by
    rcases either with is | is
    · rw [is]; decide
    · rw [is]; decide
  have solid : ∀ c ∈ url.origin.toList, jsSpaces.contains c.toNat = false := by
    rw [spelled]
    exact fun c inside => (printed_solid (printed_append scheme printed c inside)).2
  constructor
  · have bare : bareHost url.origin = false := by
      rw [spelled]
      exact bare_origin either host
    unfold normalizeServerOrigin
    dsimp only
    rw [trimmed_solid solid,bare]
    simp [again,either,bind,Except.bind,pure,Except.pure]
  · rw [blank,List.all_eq_false]
    have slash : '/' ∈ url.origin.toList := by simp [spelled]
    exact ⟨'/',slash,by decide⟩

-- What the checks of an address leave.
structure Admitted (parsed : Url) : Prop where
  scheme : parsed.scheme = "http" ∨ parsed.scheme = "https"
  host : parsed.hostStr ≠ none
  loopback : ¬(parsed.scheme = "http" ∧ !isLoopbackHost parsed)
  clear : parsed.origin ≠ "null"

theorem validate_cases {parse : String → Except String Url} (normal : validateAndNormalizeServerUrl parse text = .ok origin) :
    ∃ address parsed, parse address = .ok parsed ∧ Admitted parsed ∧ parsed.origin = origin := by
  unfold validateAndNormalizeServerUrl at normal
  dsimp only at normal
  obtain ⟨_,normal⟩ := passed normal
  split at normal
  · cases normal
  · rename_i parsed read
    obtain ⟨scheme,normal⟩ := passed normal
    obtain ⟨_,normal⟩ := passed normal
    obtain ⟨_,normal⟩ := passed normal
    obtain ⟨_,normal⟩ := passed normal
    obtain ⟨_,normal⟩ := passed normal
    obtain ⟨host,normal⟩ := passed normal
    obtain ⟨loopback,normal⟩ := passed normal
    obtain ⟨clear,normal⟩ := passed normal
    cases normal
    exact ⟨_,parsed,read,⟨(not_and_or.mp scheme).imp not_not.mp not_not.mp,host,loopback,clear⟩,rfl⟩

theorem validate_again (normal : validateAndNormalizeServerUrl urls.parse text = .ok origin) :
    validateAndNormalizeServerUrl urls.parse origin = .ok origin := by
  obtain ⟨address,parsed,read,admitted,rfl⟩ := validate_cases normal
  obtain ⟨⟨host,spelled,printed⟩,again⟩ := urls.urlOrigin address parsed read admitted.scheme
  have scheme : Printed (parsed.scheme ++ "://") := by
    rcases admitted.scheme with is | is
    · rw [is]; decide
    · rw [is]; decide
  have trimmed : trim parsed.origin = parsed.origin := by
    refine trimmed_solid (fun c inside => ?_)
    rw [spelled] at inside
    exact (printed_solid (printed_append scheme printed c inside)).1
  have absolute : "://".toList <:+: parsed.origin.toList := by
    rw [spelled,String.toList_append,String.toList_append]
    exact ⟨parsed.scheme.toList,host.toList,rfl⟩
  have some_ : parsed.origin ≠ "" := by
    intro empty
    rw [empty] at absolute
    exact absurd absolute (by decide)
  have loopback : isLoopbackHost ⟨parsed.scheme,"",none,parsed.hostStr,"/",none,none,parsed.origin⟩ = isLoopbackHost parsed := rfl
  have known : ¬(parsed.scheme ≠ "http" ∧ parsed.scheme ≠ "https") := fun other => admitted.scheme.elim other.1 other.2
  unfold validateAndNormalizeServerUrl
  dsimp only
  rw [trimmed,if_neg some_,if_pos absolute,again]
  dsimp only
  rw [if_neg known,loopback,if_neg admitted.loopback,if_neg admitted.host,if_neg admitted.clear]
  simp [pure,Except.pure]

end ZkNote.ServerOrigin
