import Mathlib.Data.Finmap
import Mathlib.Data.Finset.Sort
import Woterm.Utils

/-!
The session file of `QWoSshConf`: the parser `parse` and the writer `toStream`.

A `QHash<QString, HostInfo>` is a finite map, so two hashes with the same entries are equal.
What C++ leaves open is collected in `Env`: the order in which a hash is walked and the
`port` of a `HostInfo` that is declared without an initialiser.
-/

namespace Woterm.SshConf.Format
open Woterm.Lib Woterm.Qt Woterm.Qt.QString

structure HostInfo where
  name : QString := []
  host : QString := []
  port : Int32 := 0
  user : QString := []
  password : QString := []
  identityFile : QString := []
  proxyJump : QString := []
  memo : QString := []
  property : QString := []
  group : QString := []
deriving DecidableEq, Repr

abbrev Hosts := Finmap fun _ : QString => HostInfo
abbrev Entry := Sigma fun _ : QString => HostInfo

/-- `QHash::value`: a missing key gives a value-initialised `HostInfo`. -/
def value (hosts : Hosts) (name : QString) : HostInfo := (hosts.lookup name).getD {}

structure Env where
  /-- The order in which the entries of a hash are visited. -/
  order : Hosts → List Entry
  order_entries : ∀ hosts, (order hosts : Multiset Entry) = hosts.entries
  /-- The uninitialised `port` of `hi`, for each block of the file. -/
  port : Nat → Int32
  /-- The uninitialised `port` of `hiTmp`, for each session. -/
  tmpPort : QString → Int32

def copyHostInfo (dst src : HostInfo) : HostInfo :=
  { dst with
    host := if src.host.isEmpty then dst.host else src.host
    identityFile := if src.identityFile.isEmpty then dst.identityFile else src.identityFile
    password := if src.password.isEmpty then dst.password else src.password
    port := if 0 < src.port then src.port else dst.port
    proxyJump := if src.proxyJump.isEmpty then dst.proxyJump else src.proxyJump
    user := if src.user.isEmpty then dst.user else src.user }

abbrev Block := List QString

/-- The loop over the lines: the lines already passed (last one first), the finished blocks
and the open one. -/
structure Scan where
  before : List QByteArray := []
  blocks : List Block := []
  block : Block := []

def flush (blocks : List Block) (block : Block) : List Block :=
  if block.isEmpty then blocks else blocks ++ [block]

/-- The `#` lines right above the current line. The backward loop stops before line 0. -/
def commentsAbove (before : List QByteArray) : Block :=
  ((before.dropLast.takeWhile fun line => (toUtf8 ['#']).isPrefixOf line).map ofByteArray).reverse

def scanLine (scan : Scan) (line : QByteArray) : Scan :=
  if (toUtf8 "Host ".toList).isPrefixOf line then
    { before := line :: scan.before
      blocks := flush scan.blocks scan.block
      block := commentsAbove scan.before ++ [ofByteArray line] }
  else if (toUtf8 [' ']).isPrefixOf line || (toUtf8 ['\t']).isPrefixOf line then
    { scan with
      before := line :: scan.before
      block := if scan.block.isEmpty then [] else scan.block ++ [ofByteArray line] }
  else
    { before := line :: scan.before
      blocks := flush scan.blocks scan.block
      block := [] }

def Scan.done (scan : Scan) : List Block := flush scan.blocks scan.block

def splitBlocks (lines : List QByteArray) : List Block := (lines.foldl scanLine {}).done

/-- A branch of the chain that interprets a trimmed line: its first word with the tested
blank, the offset of the value and the field the value goes to. -/
structure Directive where
  label : QString
  offset : Nat
  set : HostInfo → QString → HostInfo

def directives : List Directive := [
  ⟨"Host ".toList, 5, fun hi text => { hi with name := text }⟩,
  ⟨"HostName ".toList, 9, fun hi text => { hi with host := text }⟩,
  ⟨"Port ".toList, 5, fun hi text => { hi with port := toInt text }⟩,
  ⟨"User ".toList, 5, fun hi text => { hi with user := text }⟩,
  ⟨"IdentityFile ".toList, 13, fun hi text => { hi with identityFile := text }⟩,
  ⟨"Password".toList, 9, fun hi text => { hi with password := text }⟩,
  ⟨"ProxyJump".toList, 9, fun hi text => { hi with proxyJump := text }⟩,
  ⟨"Property".toList, 8, fun hi text => { hi with property := text }⟩]

/-- One line of a block, with the `HostInfo` and the memo lines so far. -/
def parseItem (state : HostInfo × List QString) (text : QString) : HostInfo × List QString :=
  let item := trimmed text
  match directives.find? fun directive => startsWith item directive.label with
  | some directive => (directive.set state.1 (trimmed (mid item directive.offset)), state.2)
  | none => if startsWith item ['#'] then (state.1, state.2 ++ [mid item 1]) else state

def parseBlock (port : Int32) (block : Block) : HostInfo :=
  let state := block.foldl parseItem ({ port }, [])
  { state.1 with memo := join state.2 ['\n'] }

/-- The block's session is stored once under each of its names, in `common` or `wildcard`. -/
def insertName (hi : HostInfo) (maps : Hosts × Hosts) (part : QString) : Hosts × Hosts :=
  let name := trimmed part
  if name.isEmpty then maps
  else if '*' ∈ name then (maps.1, maps.2.insert name { hi with name })
  else (maps.1.insert name { hi with name }, maps.2)

def insertNames (maps : Hosts × Hosts) (hi : HostInfo) : Hosts × Hosts :=
  (split hi.name ' ').foldl (insertName hi) maps

def mergeWildcard (env : Env) (wildcard : Hosts) (name : QString) (hi : HostInfo) : HostInfo :=
  let hits := (env.order wildcard).filter fun entry => QRegExp.exactMatch entry.1 name
  let hiTmp := hits.foldl (fun tmp entry => copyHostInfo tmp entry.2) { port := env.tmpPort name }
  if hits.isEmpty then hi else copyHostInfo hi hiTmp

/-- The maps `common` and `wildcard`. -/
def readMaps (env : Env) (buf : QByteArray) : Hosts × Hosts :=
  ((splitBlocks (buf.splitOn 10)).mapIdx fun i block => parseBlock (env.port i) block).foldl
    insertNames (∅, ∅)

def parse (env : Env) (buf : QByteArray) : Hosts :=
  let maps := readMaps env buf
  (env.order maps.1).foldl (fun hosts entry =>
    let hi := mergeWildcard env maps.2 entry.1 entry.2
    hosts.insert hi.name hi) ∅

def ignoreUnknow : QString := "Group,Password".toList

def memoLines (memo : QString) : List QString :=
  if memo.isEmpty then [] else (split memo '\n').map ('#' :: ·)

/-- A line that is only written when its value is not empty. -/
def setting (label value : QString) : List QString :=
  if value.isEmpty then [] else [label ++ value]

/-- The indented lines of a session. -/
def settingLines (hi : HostInfo) : List QString :=
  ["  IgnoreUnknown ".toList ++ ignoreUnknow] ++
  setting "  HostName ".toList hi.host ++
  (if 0 < hi.port then ["  Port ".toList ++ number hi.port] else []) ++
  setting "  User ".toList hi.user ++
  setting "  IdentityFile ".toList hi.identityFile ++
  setting "  Password ".toList hi.password ++
  setting "  ProxyJump ".toList hi.proxyJump ++
  setting "  Property ".toList hi.property

/-- The lines `toStream` writes for one session; the first one is empty. -/
def hostLines (hi : HostInfo) : List QString :=
  [[]] ++ memoLines hi.memo ++ setting "Host ".toList hi.name ++ settingLines hi

def sortedKeys (hosts : Hosts) : List QString := hosts.keys.sort Utf16.LessEq

def toStream (hosts : Hosts) : QByteArray :=
  (sortedKeys hosts).flatMap fun name =>
    (hostLines (value hosts name)).flatMap fun line => toUtf8 (line ++ ['\n'])

end Woterm.SshConf.Format
