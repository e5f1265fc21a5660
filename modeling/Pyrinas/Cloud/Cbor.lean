import Pyrinas.Cloud.Steps

/-!
# Cloud/Cbor — a CBOR reader for manifests

An instance of the library parameter: unsigned numbers, texts, arrays, maps and booleans of definite
length.  An error is kept, and every getter that meets one leaves its output unset.
-/

namespace Pyrinas

/-- A CBOR item. -/
inductive CborItem
  | uint (n : ℕ)
  | text (bytes : List UInt8)
  | array (items : List CborItem)
  | map (entries : List (CborItem × CborItem))
  | bool (b : Bool)

namespace CborItem

/-- The argument of an initial byte: its low five bits, or the bytes behind it. -/
def argument (low : ℕ) (bytes : List UInt8) : Option (ℕ × List UInt8) :=
  if low < 24 then some (low, bytes)
  else if low ≤ 27 then
    let n := 2 ^ (low - 24)
    if n ≤ bytes.length then
      some ((bytes.take n).foldl (fun acc b => acc * 256 + b.toNat) 0, bytes.drop n)
    else none
  else none

/-- Read `n` things in a row. -/
def many {α : Type} (read : List UInt8 → Option (α × List UInt8)) :
    ℕ → List UInt8 → Option (List α × List UInt8)
  | 0, bytes => some ([], bytes)
  | n + 1, bytes => do
    let (a, bytes) ← read bytes
    let (as, bytes) ← many read n bytes
    some (a :: as, bytes)

/-- One item, nested at most as deep as the fuel. -/
def parse : ℕ → List UInt8 → Option (CborItem × List UInt8)
  | 0, _ => none
  | _, [] => none
  | fuel + 1, b :: bytes =>
    if b = 0xF4 then some (.bool false, bytes)
    else if b = 0xF5 then some (.bool true, bytes)
    else do
      let (n, bytes) ← argument (b.toNat % 32) bytes
      match b.toNat / 32 with
      | 0 => some (.uint n, bytes)
      | 3 => if n ≤ bytes.length then some (.text (bytes.take n), bytes.drop n) else none
      | 4 =>
        let (items, bytes) ← many (parse fuel) n bytes
        some (.array items, bytes)
      | 5 =>
        let (entries, bytes) ← many (fun bytes => do
          let (key, bytes) ← parse fuel bytes
          let (value, bytes) ← parse fuel bytes
          some ((key, value), bytes)) n bytes
        some (.map entries, bytes)
      | _ => none

/-- The value under a label. -/
def lookup (label : ℤ) : List (CborItem × CborItem) → Option CborItem
  | [] => none
  | (.uint n, value) :: entries => if (n : ℤ) = label then some value else lookup label entries
  | _ :: entries => lookup label entries

end CborItem

/-- Where a decoder is: an error or 0, the items still to be read, innermost scope first, and
whether there are bytes behind the message. -/
structure CborContext where
  err : ℕ
  scopes : List (List CborItem)
  extra : Bool

namespace CborContext

/-- The errors, apart from 0. -/
def hitEnd : ℕ := 1
def unexpectedType : ℕ := 2
def labelNotFound : ℕ := 3
def unclosed : ℕ := 4
def extraBytes : ℕ := 5

/-- Keep an error. -/
def fail (c : CborContext) (err : ℕ) : CborContext := { c with err := err }

/-- The value under a label of the map that was entered last. -/
def find (c : CborContext) (label : ℤ) : Except ℕ CborItem :=
  match c.scopes with
  | [.map entries] :: _ =>
    match CborItem.lookup label entries with
    | some value => .ok value
    | none => .error labelNotFound
  | _ => .error unexpectedType

/-- A getter: nothing happens once there is an error, and an error is kept. -/
def get {α : Type} (c : CborContext) (read : Except ℕ α) : Option α × CborContext :=
  if c.err ≠ 0 then (none, c)
  else
    match read with
    | .ok a => (some a, c)
    | .error err => (none, c.fail err)

/-- A number of 64 bits. -/
def uint64 : CborItem → Except ℕ UInt64
  | .uint n => if n < 2 ^ 64 then .ok (.ofNat n) else .error unexpectedType
  | _ => .error unexpectedType

/-- The next item of the array that was entered last. -/
def next (c : CborContext) : Option UInt64 × CborContext :=
  if c.err ≠ 0 then (none, c)
  else
    match c.scopes with
    | (item :: items) :: scopes =>
      match uint64 item with
      | .ok n => (some n, { c with scopes := items :: scopes })
      | .error err => (none, c.fail err)
    | _ => (none, c.fail hitEnd)

/-- Enter a scope that reading finds. -/
def enter (c : CborContext) (read : Except ℕ (List CborItem)) : CborContext :=
  match c.get read with
  | (some items, c) => { c with scopes := items :: c.scopes }
  | (none, c) => c

/-- Leave the innermost scope. -/
def exit (c : CborContext) : CborContext :=
  if c.err ≠ 0 then c else { c with scopes := c.scopes.tail }

end CborContext

/-- The reader as the library. -/
def cborReader : Qcbor where
  Context := CborContext
  init data :=
    match CborItem.parse data.length data with
    | some (item, rest) => ⟨0, [[item]], !rest.isEmpty⟩
    | none => ⟨CborContext.hitEnd, [], false⟩
  enterMap c := c.enter <|
    match c.scopes with
    | [.map entries] :: _ => .ok [.map entries]
    | _ => .error CborContext.unexpectedType
  getError c := c.err
  enterMapFromMapN c label := c.enter do
    match ← c.find label with
    | .map entries => .ok [.map entries]
    | _ => .error CborContext.unexpectedType
  getUInt64ConvertAllInMapN c label := c.get do CborContext.uint64 (← c.find label)
  enterArrayFromMapN c label := c.enter do
    match ← c.find label with
    | .array items => .ok items
    | _ => .error CborContext.unexpectedType
  getUInt64 c := c.next
  exitArray c := c.exit
  getTextStringInMapN c label := c.get do
    match ← c.find label with
    | .text bytes => .ok bytes
    | _ => .error CborContext.unexpectedType
  getBoolInMapN c label := c.get do
    match ← c.find label with
    | .bool b => .ok b
    | _ => .error CborContext.unexpectedType
  exitMap c := c.exit
  finish c :=
    if c.err ≠ 0 then c.err
    else if c.scopes.length ≠ 1 then CborContext.unclosed
    else if c.extra then CborContext.extraBytes
    else 0

/-- The bytes of a manifest with small numbers, eight zero bytes of hash and short texts. -/
def manifestBytes (major : UInt8) (host file : List UInt8) : List UInt8 :=
  [0xA4, 0x00, 0xA5, 0x00, major, 0x01, 0x00, 0x02, 0x00, 0x03, 0x00, 0x04, 0x88, 0, 0, 0, 0, 0, 0,
    0, 0, 0x01, 0x60 + UInt8.ofNat host.length] ++ host ++
    [0x02, 0x60 + UInt8.ofNat file.length] ++ file ++ [0x03, 0xF4]

/-- A build at version 1.0.0-0. -/
def sampleBuild : CloudBuild :=
  ⟨{ OtaVersion.zero with major := 1 }, [], 128, true, cborReader, cborWriter⟩

/-- A message on the OTA topic of that build. -/
def otaMessageOf (data : List UInt8) : CloudEvent :=
  .publish sampleBuild.otaSubTopic data 0 ⟨0, none, none⟩ 0

end Pyrinas
