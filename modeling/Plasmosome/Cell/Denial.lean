import Plasmosome.Foundation.Checked
import Plasmosome.Foundation.Machine
import Plasmosome.Manifest.Text
import Plasmosome.Serde.Value

/-!
# The denial book

A cell's membrane counts every denial it enforces and queues a line for those
there is room for. A denial that gets no line is counted on the next line that
is issued. A page acknowledges what was shown and shows the oldest lines left.
-/

namespace Plasmosome.Cell

open Foundation Backend Serde Manifest

abbrev Uuid := BitVec 128

/-! ## Denials and their records -/

inductive Reach where
  | host (host : String)
  | port (host : String) (port : UInt16)
deriving DecidableEq, Repr

structure Report where
  denied : String
  field : String
  fix : String
deriving DecidableEq, Repr

def Reach.report : Reach → Report
  | .host name => ⟨name, "network.hosts", tomlString name⟩
  | .port name number =>
      ⟨name ++ ":" ++ toString number.toNat, "network.ports", toString number.toNat⟩

structure DenialEntry where
  denied : String
  field : String
  fix : String
  count : UInt64
deriving DecidableEq, Repr

structure PlasmidDenials where
  plasmid : PluginId
  denials : List DenialEntry
deriving DecidableEq, Repr

structure DenialLine where
  seq : UInt64
  plasmid : Option PluginId
  denied : String
  field : String
  fix : String
  count : UInt64
  atMs : UInt64
  unlogged : UInt64
deriving DecidableEq, Repr

structure DenialPage where
  cell : CellId
  book : Uuid
  lines : List DenialLine
  entries : List PlasmidDenials
deriving DecidableEq, Repr

structure DenialLimits where
  perPlasmid : Nat
  named : Nat
  unnamed : Nat
  linesPerDenial : UInt32
  linesPerCell : UInt32
  waiting : Nat
  page : Nat
deriving DecidableEq, Repr

/-- The payload a line is logged with. -/
def logEvent (cell : CellId) (line : DenialLine) : Value :=
  objectOf ([("cell", .string cell.name), ("denied", .string line.denied),
      ("field", .string line.field), ("fix", .string line.fix), ("count", .ofU64 line.count),
      ("at_ms", .ofU64 line.atMs), ("membrane_seq", .ofU64 line.seq)] ++
    (line.plasmid.toList.map fun plasmid => ("plasmid", .string plasmid.name)) ++
    (if line.unlogged ≠ 0 then [("unlogged", .ofU64 line.unlogged)] else []))

/-! ## The book -/

structure Entry where
  plasmid : Option PluginId
  reach : Reach
  count : UInt64
  lines : UInt32
deriving DecidableEq, Repr

/-- A waiting line. Its plasmid stands beside it. -/
structure PendingLine where
  line : DenialLine
  plasmid : Option PluginId
deriving DecidableEq, Repr

def PendingLine.wire (pending : PendingLine) : DenialLine :=
  { pending.line with plasmid := pending.plasmid }

structure DenialBook where
  cell : CellId
  id : Uuid
  limits : DenialLimits
  entries : List Entry
  waiting : List PendingLine
  issued : UInt32
  lastSeq : UInt64
  unlogged : UInt64
deriving DecidableEq, Repr

namespace DenialBook

def new (cell : CellId) (book : Uuid) (limits : DenialLimits) : DenialBook :=
  { cell, id := book, limits, entries := [], waiting := [], issued := 0, lastSeq := 0
    unlogged := 0 }

def hasRoom (book : DenialBook) (plasmid : Option PluginId) : Bool :=
  let same := book.entries.countP fun entry => entry.plasmid = plasmid
  let named := book.entries.countP fun entry => entry.plasmid.isSome
  if plasmid.isSome then same < book.limits.perPlasmid && named < book.limits.named
  else same < book.limits.unnamed

/-- The entry of a denial, a new one if there is room for it, with the entries on either
side of it. -/
def entryAt (book : DenialBook) (plasmid : Option PluginId) (reach : Reach) :
    Option (List Entry × Entry × List Entry) :=
  match book.entries.findIdx? fun entry => entry.plasmid = plasmid && entry.reach = reach with
  | some index => do
      let entry ← book.entries[index]?
      return (book.entries.take index, entry, book.entries.drop (index + 1))
  | none =>
      if book.hasRoom plasmid then
        some (book.entries, { plasmid, reach, count := 0, lines := 0 }, [])
      else none

def suppress (book : DenialBook) : DenialBook :=
  { book with unlogged := saturatingAdd book.unlogged 1 }

/-- No line may be issued for an entry. -/
def spent (book : DenialBook) (entry : Entry) : Bool :=
  book.limits.linesPerDenial ≤ entry.lines || book.limits.linesPerCell ≤ book.issued ||
    book.limits.waiting ≤ book.waiting.length ||
    book.lastSeq = UInt64.ofNat (UInt64.size - 1)

def nextLine (book : DenialBook) (entry : Entry) (atMs : UInt64) : DenialLine :=
  let report := entry.reach.report
  { seq := book.lastSeq + 1, plasmid := entry.plasmid, denied := report.denied
    field := report.field, fix := report.fix, count := entry.count, atMs
    unlogged := book.unlogged }

/-- Queues a line for an entry between two lists of entries. -/
def issue (book : DenialBook) (before : List Entry) (entry : Entry) (after : List Entry)
    (line : DenialLine) : DenialBook :=
  { book with
    lastSeq := book.lastSeq + 1
    entries := before ++ { entry with lines := entry.lines + 1 } :: after
    issued := book.issued + 1
    waiting := book.waiting ++ [{ line := { line with plasmid := none }, plasmid := entry.plasmid }]
    unlogged := 0 }

section Record

variable (floatText : UInt64 → List Char)

def record (book : DenialBook) (plasmid : Option PluginId) (reach : Reach) (atMs : UInt64) :
    DenialBook :=
  match book.entryAt plasmid reach with
  | none => book.suppress
  | some (before, found, after) =>
      let entry := { found with count := saturatingAdd found.count 1 }
      let counted := { book with entries := before ++ entry :: after }
      if counted.spent entry then counted.suppress
      else
        let line := counted.nextLine entry atMs
        if 1024 < (logEvent book.cell line).size floatText then counted.suppress
        else counted.issue before entry after line

end Record

/-- Adds a named entry to its plasmid's group, a new one at the end if there is none. -/
def groupEntry (groups : List PlasmidDenials) (entry : Entry) : List PlasmidDenials :=
  match entry.plasmid with
  | none => groups
  | some plasmid =>
      let report := entry.reach.report
      let denial : DenialEntry :=
        { denied := report.denied, field := report.field, fix := report.fix, count := entry.count }
      match groups.findIdx? fun group => group.plasmid = plasmid with
      | some index =>
          groups.modify index fun group => { group with denials := group.denials ++ [denial] }
      | none => groups ++ [{ plasmid, denials := [denial] }]

def acknowledge (book : DenialBook) (id : Option Uuid) (after : UInt64) : DenialBook :=
  if id = some book.id then
    { book with waiting := book.waiting.filter fun pending => after < pending.line.seq }
  else book

def page (book : DenialBook) (id : Option Uuid) (after : UInt64) : DenialPage × DenialBook :=
  let acknowledged := book.acknowledge id after
  ({ cell := book.cell
     book := book.id
     lines := (acknowledged.waiting.take book.limits.page).map PendingLine.wire
     entries := book.entries.foldl groupEntry [] },
    acknowledged)

def forget (book : DenialBook) (plasmid : PluginId) : DenialBook :=
  { book with entries := book.entries.filter fun entry => entry.plasmid ≠ some plasmid }

end DenialBook

inductive DenialCall where
  | record (plasmid : Option PluginId) (reach : Reach) (atMs : UInt64)
  | page (id : Option Uuid) (after : UInt64)
  | forget (plasmid : PluginId)
deriving DecidableEq, Repr

/-- A book answering calls. -/
def denialBooks (floatText : UInt64 → List Char) :
    Machine DenialBook DenialCall (Option DenialPage) where
  step book
    | .record plasmid reach atMs => (none, book.record floatText plasmid reach atMs)
    | .page id after => (some (book.page id after).1, (book.page id after).2)
    | .forget plasmid => (none, book.forget plasmid)

end Plasmosome.Cell
