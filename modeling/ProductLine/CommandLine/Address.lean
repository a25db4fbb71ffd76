import ProductLine.CommandLine.Host
import ProductLine.Number.Reader
import ProductLine.Text.Blank
import ProductLine.Text.Quoted

/-! # Addresses

A destination can be an address instead of a path: a scheme, a colon, and what the scheme makes of
the rest. `Address.hostFault?` tells what is wrong with the host of a destination, `Address.ofText?`
tells addresses from paths, and `Address.target` says what has to be opened at one.

Everything here is about plain texts; what messages show of them is held as in `Text.hold`. -/

namespace ProductLine
namespace CommandLine

/-- What is wrong with the host of an address. -/
inductive HostFault where
  /-- A bracket lacks its opposite, or something stands beside brackets. -/
  | brackets
  /-- What brackets are for is neither octets nor groups. -/
  | noNumber (host : String)
  /-- There are octets between brackets. -/
  | octets
  /-- A number of a later version is not written as one. -/
  | laterVersion
  /-- Written in plain characters, the host has characters that end or divide a host. -/
  | dividing (host : String)
deriving DecidableEq, Repr

/-- Why nothing can be opened at an address. -/
inductive OpeningFault where
  | unknownScheme (scheme : String)
  | noHost (scheme : String)
  /-- The host of a file is another one. -/
  | otherHost
  /-- The host of a file whose path begins with two slashes is another one. -/
  | foreignHost
  /-- The host of the user does not answer. -/
  | refused
  /-- A host known by its number is out of reach. -/
  | unreachable
  /-- The name of a host cannot be looked up now. -/
  | notLookedUp
  /-- No host can have the name. -/
  | noSuchName
deriving DecidableEq, Repr

/-- Why opening an address ends in an error. -/
inductive AddressFault where
  | notOpened (fault : OpeningFault)
  | noPort (text : String)
  | control (text : String) (c : Char)
  /-- A request has characters that are not ASCII. -/
  | request (text : String)
  /-- A host has characters that take more than a byte. -/
  | wideHost (host : String)
  | label (fault : Host.LabelFault)
  /-- A host that is looked up has a null character. -/
  | nullCharacter
deriving DecidableEq, Repr

/-- An address: the scheme, the host, empty if there is none, and what follows. -/
structure Address where
  scheme : String
  host : List Char
  rest : List Char
deriving DecidableEq, Repr

namespace Address

/-! ### The form of addresses -/

def schemes : List String :=
  ["file", "ftp", "git", "git+ssh", "gopher", "hdl", "http", "https", "imap", "mms", "nfs", "nntp",
    "prospero", "rsync", "rtsp", "rtspu", "sftp", "shttp", "sip", "sips", "snews", "svn", "svn+ssh",
    "tel", "telnet", "wais", "ws", "wss"]

def isSchemeChar (c : Char) : Bool := c.isAlphanum || c == '+' || c == '-' || c == '.'

/-- A text without control characters and blanks in front and without line ends and tabs. -/
def cleaned (s : String) : List Char :=
  (s.toList.dropWhile (·.toNat ≤ 32)).filter fun c => c ≠ '\t' && c ≠ '\n' && c ≠ '\r'

/-- The scheme in front of a text and what follows the colon. -/
def split? (cs : List Char) : Option (String × List Char) :=
  match cs.span (· != ':') with
  | (c :: scheme, ':' :: rest) =>
    if c.isAlpha && scheme.all isSchemeChar then
      some ((String.ofList (c :: scheme)).toLower, rest)
    else none
  | _ => none

/-- The host at the front of what follows a scheme, which ends before the next slash, and the
rest. -/
def host? (cs : List Char) : Option (List Char × List Char) :=
  match cs with
  | '/' :: '/' :: rest =>
    some (rest.span fun c => c ≠ '/' && c ≠ '?' && c ≠ '#')
  | _ => none

/-- Characters that are written with a slash, a question mark, a number sign, an at sign or a colon
in plain characters. -/
def dividing : List Nat :=
  [0x2047, 0x2048, 0x2049, 0x2100, 0x2101, 0x2105, 0x2106, 0x2A74, 0xFE13, 0xFE16, 0xFE55, 0xFE56,
    0xFE5F, 0xFE6B, 0xFF03, 0xFF0F, 0xFF1A, 0xFF1F, 0xFF20]

/-- What is wrong with what stands between brackets, if anything. -/
def numberFault? (host : List Char) : Option HostFault :=
  match host with
  | 'v' :: version =>
    match version.span fun c => (Text.hexDigit? c).isSome with
    | (_ :: _, '.' :: _ :: _) => none
    | _ => some .laterVersion
  | _ =>
    if Host.isQuad host then some .octets
    else if Host.isZoned host then none
    else some (.noNumber (Text.hold (String.ofList host)))

/-- What is wrong with a host that has brackets, if anything. -/
def bracketFault? (host : List Char) : Option HostFault :=
  let host := (Text.splitLast? '@' host).elim host (·.2)
  match host.span (· != '[') with
  | ([], _ :: inside) =>
    match inside.span (· != ']') with
    | (number, []) | (number, [_]) | (number, _ :: ':' :: _) => numberFault? number
    | _ => some .brackets
  | (_, _ :: _) => some .brackets
  | (plain, []) => numberFault? (plain.takeWhile (· != ':'))

/-- What is wrong with the host of a text, if anything. -/
def hostFault? (s : String) : Option HostFault :=
  let cs := cleaned s
  match host? ((split? cs).elim cs (·.2)) with
  | none => none
  | some (host, _) =>
    let brackets :=
      if host.contains '[' != host.contains ']' then some .brackets
      else if host.contains '[' then bracketFault? host
      else none
    match brackets with
    | some fault => some fault
    | none =>
      if host.any fun c => dividing.contains c.toNat then
        some (.dividing (Text.hold (String.ofList host)))
      else none

/-- An address from its text: a mark from the last number sign on does not belong to it. -/
def parse (s : String) : Address :=
  let cs := Text.trim Text.isBlank s.toList
  let cs := (Text.splitLast? '#' cs).elim cs (·.1)
  let (scheme, rest) := cs.span (· != ':')
  let scheme := (String.ofList scheme).toLower
  match host? rest.tail with
  | none => ⟨scheme, [], rest.tail⟩
  | some (host, path) =>
    let path := match path with
      | [] => []
      | '/' :: _ => path
      | _ => '/' :: path
    ⟨scheme, Text.unescaped host, path⟩

/-- The address that a text is, if it begins with the scheme of one. -/
def ofText? (s : String) : Option Address :=
  match split? (cleaned s) with
  | some (scheme, _) => if schemes.contains scheme then some (parse s) else none
  | none => none

/-- Whether schemes follow, with double colons between, and a colon with two slashes; with fuel for
as many schemes. -/
def links : Nat → List Char → Bool
  | 0, _ => false
  | fuel + 1, cs =>
    match cs.span isSchemeChar with
    | (_ :: _, ':' :: '/' :: '/' :: _) => true
    | (_ :: _, ':' :: ':' :: rest) => links fuel rest
    | _ => false

/-- Whether a text begins with a letter and like an address of whatever scheme, chained ones among
them. -/
def isForeign (s : String) : Bool :=
  match s.toList with
  | c :: rest => c.isAlpha && links (rest.length + 1) (c :: rest)
  | [] => false

/-! ### Opening -/

/-- The fault of an address at which nothing can be opened. -/
def unopened (fault : OpeningFault) : AddressFault := .notOpened fault

/-- What keeps a host from being looked up, if anything does. -/
def lookupFault? (host : List Char) : Option AddressFault :=
  match Host.labelFault? host with
  | some fault => some (.label fault)
  | none => if host.contains '\x00' then some .nullCharacter else none

/-- Why a host cannot be reached: nothing can be but the user's own, which does not answer. -/
def connectionFault (host : List Char) : AddressFault :=
  match lookupFault? host, Host.address? host with
  | some fault, _ => fault
  | none, some n =>
    unopened (if n / (256 * 256 * 256) = 127 ∨ n = 0 then .refused else .unreachable)
  | none, none =>
    unopened
      (if Host.isOwn host ∨ host = "::1".toList then .refused
        else if Host.isGrouped host then .unreachable
        else if Host.isName host then .notLookedUp
        else .noSuchName)

/-- Whether a character controls or is blank. -/
def isControl (c : Char) : Bool := c.toNat ≤ 0x20 || c.toNat == 0x7F

/-- The fault of a text with control characters. -/
def controlFault? (cs : List Char) : Option AddressFault :=
  (cs.find? isControl).map (.control (Text.hold (String.ofList cs)))

/-- The name of a host without the port behind its last colon. -/
def withoutPort (host : List Char) : Except AddressFault (List Char) :=
  match Text.splitLast? ':' host with
  | none => .ok host
  | some (front, back) =>
    if back.contains ']' then .ok host
    else if back.isEmpty ∨ (Number.readInt? (String.ofList back)).isSome then .ok front
    else .error (.noPort (Text.hold (String.ofList back)))

/-- A host without brackets around it. -/
def withoutBrackets : List Char → List Char
  | '[' :: rest => if rest.getLast? = some ']' then rest.dropLast else '[' :: rest
  | host => host

/-- Why nothing comes of a request to a host. -/
def requestFault (host rest : List Char) : AddressFault :=
  match withoutPort host with
  | .error fault => fault
  | .ok front =>
    let name := withoutBrackets front
    let path := if rest.isEmpty then ['/'] else rest
    match controlFault? name, controlFault? path with
    | some fault, _ | none, some fault => fault
    | none, none =>
      if path.any (0x80 ≤ ·.toNat) then
        .request (Text.hold (String.ofList ("GET ".toList ++ path)))
      else if host.any (0x100 ≤ ·.toNat) then .wideHost (Text.hold (String.ofList host))
      else if name.isEmpty then unopened .noSuchName
      else connectionFault name

/-- Why nothing comes of asking a host for a file to be transferred. -/
def transferFault (host : List Char) : AddressFault :=
  let name := (Host.splitPort host).1
  let name := Text.unescaped ((Text.splitLast? '@' name).elim name (·.2))
  if name.isEmpty then unopened .refused else connectionFault name

/-- Why a file that is there is not opened at a host, if it is not. -/
def otherHostFault? (host : List Char) : Option AddressFault :=
  match Host.splitPort host with
  | ([], _) => none
  | (_, _ :: _) => some (unopened .otherHost)
  | (name, []) =>
    match lookupFault? name with
    | some fault => some fault
    | none => if Host.isOwn name then none else some (unopened .otherHost)

/-- Whether a path begins with two slashes and not with three. -/
def beginsDoubly : List Char → Bool
  | '/' :: '/' :: '/' :: _ => false
  | '/' :: '/' :: _ => true
  | _ => false

/-- What is to be opened at an address: a file, or nothing, for a reason. That the host of a file is
another one shows only if there is such a file, unless its path begins with two slashes; then a host
must not be given by its number. -/
def target (a : Address) : Except AddressFault (String × Option AddressFault) :=
  let named := !a.host.isEmpty && a.host != Host.own.2
  match a.scheme with
  | "file" =>
    if beginsDoubly a.rest && named then
      .error (unopened
        (if a.host = "127.0.0.1".toList then .unknownScheme a.scheme else .foreignHost))
    else .ok (Text.hold (String.ofList (Text.unescaped a.rest)), otherHostFault? a.host)
  | "http" | "https" =>
    .error (if a.host.isEmpty then unopened (.noHost a.scheme) else requestFault a.host a.rest)
  | "ftp" =>
    .error (if a.host.isEmpty then unopened (.noHost a.scheme) else transferFault a.host)
  | scheme => .error (unopened (.unknownScheme scheme))

end Address

/-! ### Wordings -/

def HostFault.message : HostFault → String
  | .brackets => "Invalid IPv6 URL"
  | .noNumber host => Text.quoted host ++ " does not appear to be an IPv4 or IPv6 address"
  | .octets => "An IPv4 address cannot be in brackets"
  | .laterVersion => "IPvFuture address is invalid"
  | .dividing host =>
    "netloc '" ++ host ++ "' contains invalid characters under NFKC normalization"

/-- The wording of a reason for which nothing can be opened. -/
def OpeningFault.message : OpeningFault → String
  | .unknownScheme scheme => "unknown url type: " ++ scheme
  | .noHost scheme => if scheme = "ftp" then "ftp error: no host given" else "no host given"
  | .otherHost => "file not on local host"
  | .foreignHost => "file:// scheme is supported only on localhost"
  | .refused => "[Errno 111] Connection refused"
  | .unreachable => "[Errno 101] Network is unreachable"
  | .notLookedUp => "[Errno -3] Temporary failure in name resolution"
  | .noSuchName => "[Errno -2] Name or service not known"

def AddressFault.message : AddressFault → String
  | .notOpened fault => "<urlopen error " ++ fault.message ++ ">"
  | .noPort text => "nonnumeric port: '" ++ text ++ "'"
  | .control text c =>
    "URL can't contain control characters. " ++ Text.quoted text ++ " (found at least " ++
      Text.quoted c.toString ++ ")"
  | .request text =>
    "'ascii' codec can't encode " ++ Text.places (0x80 ≤ ·) 0 (Text.points text.toList) ++
      ": ordinal not in range(128)"
  | .wideHost host =>
    "'latin-1' codec can't encode " ++ Text.places (0x100 ≤ ·) 0 (Text.points host.toList) ++
      ": ordinal not in range(256)"
  | .label fault =>
    "encoding with 'idna' codec failed (UnicodeError: label " ++
      (match fault with | .emptyOrLong => "empty or too long" | .long => "too long") ++ ")"
  | .nullCharacter => "The host has a null character"

end CommandLine
end ProductLine
