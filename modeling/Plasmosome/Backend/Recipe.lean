import Plasmosome.Foundation.IpAddress

/-!
# Recipes and the rules they obey

The resolved recipe of each capability class, and the first structural rule a
recipe breaks. A check never rewrites the value it refuses.
-/

namespace Plasmosome.Backend

open Foundation

/-- The most bytes a session file's contents may hold. -/
def maxSessionFileBytes : Nat := 65536

def maxDnsNameBytes : Nat := 253

def maxDnsLabelBytes : Nat := 63

inductive FileAccess where
  | readOnly
  | readWrite
deriving DecidableEq, Repr

inductive ProxyTransport where
  | tcp
  | udp
deriving DecidableEq, Repr

structure SessionFileRecipe where
  contents : List UInt8
  mode : FileAccess
  guestPath : String
deriving DecidableEq, Repr

structure UdsRecipe where
  upstream : String
  guestPath : String
deriving DecidableEq, Repr

structure ProxyRecipe where
  transport : ProxyTransport
  destination : String
  port : UInt16
  allowPrivate : Bool
deriving DecidableEq, Repr

structure MountRecipe where
  access : FileAccess
deriving DecidableEq, Repr

/-- The argument vector of a broker, its program first, and its two host endpoints. -/
structure BrokerLaunch where
  command : List String
  controlSocket : String
  dataSocket : String
deriving DecidableEq, Repr

/-- The first structural rule a recipe or a capability breaks. -/
inductive RecipeError where
  | containsNul (field : String)
  | notAbsolute (field value : String)
  | notCanonical (field value : String)
  | contentsTooLarge (len : Nat)
  | zeroPort
  | invalidDestination (value : String)
  | notCanonicalAddress (value : String) (canonical : IpAddr)
  | embeddedIpv4 (value : String) (ipv4 : Ipv4Addr)
  | emptyCommand
  | sharedEndpoint (path : String)
deriving DecidableEq, Repr

def nulFree (field value : String) : Except RecipeError Unit :=
  if value.toList.contains '\x00' then .error (.containsNul field) else .ok ()

/-- Accepts a canonical absolute path: NUL-free, starting with `/`, and with no empty, `.` or `..`
component, so `/` itself and a trailing `/` are refused. -/
def canonicalPath (field value : String) : Except RecipeError Unit := do
  nulFree field value
  match value.toList with
  | '/' :: rest =>
      if (rest.splitOn '/').any (fun component => [[], ['.'], ['.', '.']].contains component) then
        .error (.notCanonical field value)
      else .ok ()
  | _ => .error (.notAbsolute field value)

def isAsciiHexdigit (char : Char) : Bool :=
  char.isDigit || ('a' ≤ char && char ≤ 'f') || ('A' ≤ char && char ≤ 'F')

/-- A label resolvers read as a number: all digits, or `0x` and hexadecimal digits. -/
def isNumber : List Char → Bool
  | '0' :: 'x' :: hex => hex.all isAsciiHexdigit
  | '0' :: 'X' :: hex => hex.all isAsciiHexdigit
  | label => label.all Char.isDigit

/-- The length of a text in UTF-8 bytes. -/
def byteLen (text : List Char) : Nat := (text.map Char.utf8Size).sum

def isDnsLabel (label : List Char) : Bool :=
  1 ≤ byteLen label && byteLen label ≤ maxDnsLabelBytes &&
    label.all (fun char => char.isAlphanum || char = '-') &&
    label.head? ≠ some '-' && label.getLast? ≠ some '-'

def isDnsName (value : String) : Bool :=
  let labels := value.toList.splitOn '.'
  let endsInANumber := labels.getLast?.any isNumber
  byteLen value.toList ≤ maxDnsNameBytes && labels.all isDnsLabel && !endsInANumber

/-- The IPv4 address an IPv6 address carries, the unspecified and loopback addresses apart. -/
def embeddedIpv4 (address : Ipv6Addr) : Option Ipv4Addr :=
  if address.isUnspecified || address.isLoopback then none else address.toIpv4

def ipLiteral (value : String) (address : IpAddr) : Except RecipeError Unit :=
  let embedded :=
    match address with
    | .v4 _ => none
    | .v6 v6 => embeddedIpv4 v6
  match embedded with
  | some ipv4 => .error (.embeddedIpv4 value ipv4)
  | none =>
      if address.display ≠ value then .error (.notCanonicalAddress value address) else .ok ()

/-- The address an IP literal accepted as a destination spells. -/
def canonicalIpLiteral (text : String) : Option IpAddr :=
  match IpAddr.parse text with
  | none => none
  | some address =>
      match ipLiteral text address with
      | .ok () => some address
      | .error _ => none

def destination (value : String) : Except RecipeError Unit := do
  nulFree "destination" value
  match IpAddr.parse value with
  | some address => ipLiteral value address
  | none => if isDnsName value then .ok () else .error (.invalidDestination value)

def SessionFileRecipe.validate (recipe : SessionFileRecipe) : Except RecipeError Unit :=
  if maxSessionFileBytes < recipe.contents.length then
    .error (.contentsTooLarge recipe.contents.length)
  else canonicalPath "guest_path" recipe.guestPath

def UdsRecipe.validate (recipe : UdsRecipe) : Except RecipeError Unit := do
  canonicalPath "upstream" recipe.upstream
  canonicalPath "guest_path" recipe.guestPath

def ProxyRecipe.validate (recipe : ProxyRecipe) : Except RecipeError Unit := do
  Backend.destination recipe.destination
  if recipe.port = 0 then .error .zeroPort else .ok ()

def MountRecipe.validate (_ : MountRecipe) : Except RecipeError Unit := .ok ()

def BrokerLaunch.validate (launch : BrokerLaunch) : Except RecipeError Unit :=
  match launch.command with
  | [] => .error .emptyCommand
  | program :: _ => do
      launch.command.forM (nulFree "command")
      canonicalPath "command" program
      canonicalPath "control_socket" launch.controlSocket
      canonicalPath "data_socket" launch.dataSocket
      if launch.controlSocket = launch.dataSocket then
        .error (.sharedEndpoint launch.controlSocket)
      else .ok ()

end Plasmosome.Backend
