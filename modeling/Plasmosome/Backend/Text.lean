import Plasmosome.Backend.Universe

/-!
# Diagnostic texts

The texts errors carry for people: addresses, owners and described objects. No
code branches on them. Quoted strings escape ASCII as Rust's `Debug` does and
keep every other character.
-/

namespace Plasmosome.Backend

def hexDigits (width value : Nat) : String :=
  let digits := Nat.toDigits 16 value
  String.ofList (List.replicate (width - digits.length) '0' ++ digits)

/-- The canonical lower-case hyphenated form. -/
def GrantId.display (id : GrantId) : String :=
  let text := (hexDigits 32 id.uuid.toNat).toList
  let group := fun (start len : Nat) => String.ofList ((text.drop start).take len)
  "-".intercalate [group 0 8, group 8 4, group 12 4, group 16 4, group 20 12]

def Handle.display (handle : Handle) : String :=
  handle.class.asStr ++ "/" ++ handle.id.display

def debugChar (char : Char) : String :=
  if char = '\x00' then "\\0"
  else if char = '\t' then "\\t"
  else if char = '\r' then "\\r"
  else if char = '\n' then "\\n"
  else if char = '\\' then "\\\\"
  else if char = '"' then "\\\""
  else if char.toNat < 32 ∨ char.toNat = 127 then
    "\\u\x7b" ++ String.ofList (Nat.toDigits 16 char.toNat) ++ "\x7d"
  else char.toString

def debugString (text : String) : String :=
  "\"" ++ String.join (text.toList.map debugChar) ++ "\""

def debugList (items : List String) : String := "[" ++ ", ".intercalate items ++ "]"

/-- A record's name and its fields in declaration order. -/
def debugRecord (name : String) (fields : List (String × String)) : String :=
  let shown := fields.map fun (field, value) => field ++ ": " ++ value
  name ++ " \x7b " ++ ", ".intercalate shown ++ " \x7d"

def CellOwner.display (owner : CellOwner) : String :=
  debugString owner.cell.name ++ "/" ++ debugString owner.plugin.name

def FileAccess.debug : FileAccess → String
  | .readOnly => "ReadOnly"
  | .readWrite => "ReadWrite"

def ProxyTransport.debug : ProxyTransport → String
  | .tcp => "Tcp"
  | .udp => "Udp"

def SessionFileRecipe.debug (recipe : SessionFileRecipe) : String :=
  debugRecord "SessionFileRecipe"
    [("contents", debugList (recipe.contents.map fun byte => toString byte.toNat)),
      ("mode", recipe.mode.debug), ("guest_path", debugString recipe.guestPath)]

def UdsRecipe.debug (recipe : UdsRecipe) : String :=
  debugRecord "UdsRecipe"
    [("upstream", debugString recipe.upstream), ("guest_path", debugString recipe.guestPath)]

def ProxyRecipe.debug (recipe : ProxyRecipe) : String :=
  debugRecord "ProxyRecipe"
    [("transport", recipe.transport.debug), ("destination", debugString recipe.destination),
      ("port", toString recipe.port.toNat), ("allow_private", toString recipe.allowPrivate)]

def MountRecipe.debug (recipe : MountRecipe) : String :=
  debugRecord "MountRecipe" [("access", recipe.access.debug)]

def BrokerLaunch.debug (launch : BrokerLaunch) : String :=
  debugRecord "BrokerLaunch"
    [("command", debugList (launch.command.map debugString)),
      ("control_socket", debugString launch.controlSocket),
      ("data_socket", debugString launch.dataSocket)]

def Capability.debug : Capability → String
  | .sessionFile path recipe =>
      debugRecord "SessionFile" [("path", debugString path), ("recipe", recipe.debug)]
  | .udsSocket path recipe =>
      debugRecord "UdsSocket" [("path", debugString path), ("recipe", recipe.debug)]
  | .proxyMap host route recipe =>
      debugRecord "ProxyMap"
        [("host", debugString host), ("route", debugString route), ("recipe", recipe.debug)]
  | .broker name launch =>
      debugRecord "Broker" [("name", debugString name), ("launch", launch.debug)]
  | .mount source target recipe =>
      debugRecord "Mount"
        [("source", debugString source), ("target", debugString target),
          ("recipe", recipe.debug)]

def OsObject.describe (object : OsObject) : String :=
  object.class.asStr ++ " `" ++ object.key ++ "` grant " ++ object.id.display ++
    " owned by `" ++ object.owner.display ++ "` with " ++ object.capability.debug

end Plasmosome.Backend
