import DhcpServer.Files.FileManager
import DhcpServer.Files.Uploads
import DhcpServer.Web.Json

/-!
# Saving a text from the editor

`handleGetFileText` and `handlePostFileText` for one file, next to the uploads and transfers onto it. A
save looks at the modification time once, before it opens the part all writers of the path share, and is
a request without a total from there on. A publish gives the file a modification time below 2^31 it never
had before.
-/

namespace DhcpServer.Files.TextSaves

open Library Web.Json Function
open Uploads (Mark Content Disk Request marks)

def kMaxTextBytes : Nat := 512 * 1024
def kBinaryRatioPercent : Nat := 10
def kAsciiPrintableMin : UInt8 := 0x20
def kAsciiDel : UInt8 := 0x7F

def isSuspicious (byte : UInt8) : Bool :=
  !(byte = 0x09 || byte = 0x0A || byte = 0x0D) && !(kAsciiPrintableMin ≤ byte && byte != kAsciiDel)

def looksLikeText (data : Bytes) : Bool :=
  !data.contains 0 && data.countP isSuspicious * 100 ≤ data.length * kBinaryRatioPercent

def hexDigit (byte : UInt8) : Option Nat :=
  if 0x30 ≤ byte && byte ≤ 0x39 then some (byte.toNat - 0x30)
  else if 0x61 ≤ byte && byte ≤ 0x66 then some (byte.toNat - 0x61 + 10)
  else if 0x41 ≤ byte && byte ≤ 0x46 then some (byte.toNat - 0x41 + 10)
  else none

def hexValue (digits : Bytes) : Option Nat :=
  digits.foldlM (fun value digit ↦ (hexDigit digit).map fun low ↦ value * 16 + low) 0

def appendUtf8 (code : Nat) : Bytes :=
  if code < 0x80 then [UInt8.ofNat code]
  else if code < 0x800 then [UInt8.ofNat (0xC0 ||| code >>> 6), UInt8.ofNat (0x80 ||| code &&& 0x3F)]
  else if code < 0x10000 then
    [UInt8.ofNat (0xE0 ||| code >>> 12), UInt8.ofNat (0x80 ||| code >>> 6 &&& 0x3F),
      UInt8.ofNat (0x80 ||| code &&& 0x3F)]
  else
    [UInt8.ofNat (0xF0 ||| code >>> 18), UInt8.ofNat (0x80 ||| code >>> 12 &&& 0x3F),
      UInt8.ofNat (0x80 ||| code >>> 6 &&& 0x3F), UInt8.ofNat (0x80 ||| code &&& 0x3F)]

def simpleEscape (letter : UInt8) : Option UInt8 :=
  if letter = quote || letter = backslash || letter = 0x2F then some letter
  else if letter = 0x62 then some 0x08
  else if letter = 0x66 then some 0x0C
  else if letter = 0x6E then some 0x0A
  else if letter = 0x72 then some 0x0D
  else if letter = 0x74 then some 0x09
  else none

def pairCode (high low : Nat) : Option Nat :=
  if 0xD800 ≤ high ∧ high ≤ 0xDBFF ∧ 0xDC00 ≤ low ∧ low ≤ 0xDFFF then
    some (0x10000 + (high - 0xD800) <<< 10 + (low - 0xDC00))
  else none

/-- The text up to the closing quote, with `fuel` for every byte of it. -/
def decodeText : Nat → Bytes → Option Bytes
  | 0, _ | _, [] => none
  | fuel + 1, byte :: rest =>
    if byte = quote then some []
    else if byte ≠ backslash then (decodeText fuel rest).map (byte :: ·)
    else
      match rest with
      | [] => none
      | letter :: rest =>
        if letter ≠ 0x75 then do
          let character ← simpleEscape letter
          (decodeText fuel rest).map (character :: ·)
        else do
          guard (4 ≤ rest.length)
          let code ← hexValue (rest.take 4)
          let pair := (rest.drop 4).take 6
          let low :=
            if pair.take 2 = [backslash, 0x75] ∧ pair.length = 6 then hexValue (pair.drop 2) else none
          match low.bind (pairCode code) with
          | some both => (decodeText fuel (rest.drop 10)).map (appendUtf8 both ++ ·)
          | none => (decodeText fuel (rest.drop 4)).map (appendUtf8 code ++ ·)

/-- The value of a key, escapes included; `none` where it is missing or no valid string. -/
def jsonDecodeStr (json key : Bytes) : Option Bytes := do
  let named ← find (quote :: key ++ [quote]) json
  let assigned ← find [colon] named
  match (assigned.drop 1).dropWhile fun byte ↦ byte = blank || byte = 0x09 with
  | [] => none
  | byte :: rest => if byte = quote then decodeText (rest.length + 1) rest else none

def httpStatusFor : FileStatus → Nat
  | .ok => 200
  | .invalidPath | .unsupported => 400
  | .notFound => 404
  | .notMounted | .alreadyExists | .notEmpty | .conflict | .busy => 409
  | .tooLarge => 413
  | .notText => 415
  | .noSpace => 507
  | .ioError => 500

inductive Answer
  | saved (size mtime : Nat)
  | emptyBody
  | failed (status : FileStatus)
deriving DecidableEq

structure Save where
  text : Bytes
  clientMtime : Int

def envelope (body : Bytes) : Bytes :=
  body.take (body.length - ((find (ascii "\"text\"") body).getD []).length)

/-- What `handlePostFileText` takes from the body, or its answer. -/
def parseSave (body : Bytes) : Except Answer Save :=
  if body.isEmpty then .error .emptyBody
  else if find (ascii "\"text\"") body = none then .error (.failed .invalidPath)
  else
    match jsonDecodeStr body (ascii "text") with
    | none => .error (.failed .invalidPath)
    | some text =>
      if kMaxTextBytes < text.length then .error (.failed .tooLarge)
      else if !looksLikeText text then .error (.failed .notText)
      else .ok ⟨text, jsonGetInt (envelope body) (ascii "mtime") (-1)⟩

/-- The number a client has written as the modification time. -/
def carried (body : Bytes) : Option Nat :=
  match valueOf (envelope body) (ascii "mtime") with
  | some (byte :: rest) => if isDigit byte then some (digitsValue (byte :: rest)) else none
  | _ => none

theorem clientMtime_of_carried {body : Bytes} {save : Save} {mtime : Nat} (hparse : parseSave body = .ok save)
    (hcarried : carried body = some mtime) (hsmall : mtime < 2 ^ 31) : save.clientMtime = mtime := by
  have hclient : save.clientMtime = jsonGetInt (envelope body) (ascii "mtime") (-1) := by
    unfold parseSave at hparse
    split_ifs at hparse
    split at hparse
    · cases hparse
    · split_ifs at hparse
      rw [← Except.ok.inj hparse]
  unfold carried at hcarried
  split at hcarried
  case h_2 => cases hcarried
  rename_i byte rest hvalue
  split_ifs at hcarried with hdigit
  cases hcarried
  have hplain : isSpace byte = false ∧ byte ≠ 0x2D ∧ byte ≠ 0x2B := by
    simp only [isDigit, isSpace, Bool.and_eq_true, decide_eq_true_eq] at hdigit ⊢
    grind
  have hdrop : (byte :: rest).dropWhile isSpace = byte :: rest := by simp [hplain.1]
  have hatoi : atoi (byte :: rest) = min 2147483647 (digitsValue (byte :: rest) : Int) := by
    simp only [atoi, hdrop, if_neg hplain.2.1, if_neg hplain.2.2]
  have hvalued : jsonGetInt (envelope body) (ascii "mtime") (-1) = atoi (byte :: rest) := by
    simp only [jsonGetInt, hvalue]
  rw [hclient, hvalued, hatoi]
  omega

/-- An upload or the writer of a transfer, or a save with its body. -/
inductive Work
  | upload (request : Request)
  | save (body : Bytes)

/-- What a task hands to `openWrite`. -/
def Work.request : Work → Request
  | .upload request => request
  | .save body =>
    match parseSave body with
    | .ok parsed => { body := parsed.text }
    | .error _ => { body := [] }

def Work.isSave : Work → Bool
  | .upload _ => false
  | .save _ => true

/-- A file and the modification time it has been published with. -/
structure Version where
  file : Nat
  mtime : Nat
deriving DecidableEq

/-- What a task has put in place, and what was there when its `commit` began. -/
structure Commit where
  replaced : Option Version
  content : Content
deriving DecidableEq

structure State where
  uploads : Uploads.State := {}
  mtimes : Nat → Nat := fun _ ↦ 0
  /-- all that have been published -/
  versions : List Version := []
  /-- what reads have been answered with -/
  reads : List Version := []
  /-- the saves that have found no conflict -/
  passed : Nat → Bool := fun _ ↦ false
  found : Nat → Option Version := fun _ ↦ none
  commits : Nat → Option Commit := fun _ ↦ none
  answers : Nat → Option Answer := fun _ ↦ none

inductive Event
  | read
  /-- a save up to its look at the modification time, where `stat` may fail -/
  | save (request : Nat) (fails : Bool)
  /-- `openWrite` of a save fails without a look at the part -/
  | refuse (request : Nat) (status : FileStatus)
  /-- A step of `openWrite` or of the sink. A publish gives the modification time. -/
  | act (event : Uploads.Event) (mtime : Nat)
  /-- a save answers, and `stat` may fail -/
  | answer (request : Nat) (fails : Bool)

def actor : Uploads.Event → Option Nat
  | .check request | .refuse request | .openPart request | .receive request _ | .interrupt request _
  | .cancel request | .finish request | .flushFails request | .abort request _ | .removeFinal request _
  | .publish request _ => some request
  | .discard => none

def Event.request : Event → Option Nat
  | .read => none
  | .save request _ | .refuse request _ | .answer request _ => some request
  | .act event _ => actor event

namespace State

def setAnswer (state : State) (request : Nat) (answer : Answer) : State :=
  { state with answers := update state.answers request (some answer) }

def current (state : State) : Option Version :=
  state.uploads.disk.final.map fun file ↦ ⟨file, state.mtimes file⟩

/-- `FatFs` gives no name away that is taken. -/
def publishedBy (state : State) : Uploads.Event → Option Nat
  | .publish request false =>
    if state.uploads.phases request = .publishing ∧ state.uploads.disk.final = none then
      state.uploads.disk.part
    else none
  | _ => none

/-- What a step of a request leaves behind besides the names and files. -/
def follow (state : State) (event : Uploads.Event) (mtime : Nat) : State :=
  match event with
  | .removeFinal request _ => { state with found := update state.found request state.current }
  | .publish request _ =>
    match state.publishedBy event with
    | some file =>
      { state with
        mtimes := update state.mtimes file mtime
        versions := state.versions ++ [⟨file, mtime⟩]
        commits := update state.commits request
          (some ⟨state.found request, state.uploads.disk.files file⟩) }
    | none => state
  | _ => state

end State

section System

variable (works : Nat → Work)

/-- A save goes on after its look at the modification time until it is answered. No one stops it. -/
def mayAct (state : State) (event : Uploads.Event) : Bool :=
  match event with
  | .cancel request | .refuse request => !(works request).isSave
  | event =>
    (actor event).all fun request ↦
      !(works request).isSave || (state.passed request && (state.answers request).isNone)

/-- A publish gives a modification time the file never had before. -/
def isFresh (state : State) (event : Uploads.Event) (mtime : Nat) : Bool :=
  (state.publishedBy event).isNone || (mtime ∉ state.versions.map Version.mtime && mtime < 2 ^ 31)

def step (state : State) : Event → Option State
  | .read => some { state with reads := state.reads ++ state.current.toList }
  | .save request fails =>
    match works request with
    | .upload _ => none
    | .save body =>
      if state.passed request || (state.answers request).isSome then none
      else
        match parseSave body with
        | .error answer => some (state.setAnswer request answer)
        | .ok save =>
          -- the editor sends the modification time of a read
          if (state.reads.map Version.mtime).any fun mtime ↦ carried body = some mtime then
            match if fails then none else state.current with
            | none => some { state with passed := update state.passed request true }
            | some info =>
              if 0 ≤ save.clientMtime ∧ save.clientMtime ≠ info.mtime then
                some (state.setAnswer request (.failed .conflict))
              else some { state with passed := update state.passed request true }
          else none
  | .refuse request status =>
    match works request with
    | .upload _ => none
    | .save _ =>
      match state.uploads.phases request with
      | .waiting | .accepted _ =>
        if state.passed request && (state.answers request).isNone && status ≠ .ok then
          some ({ state with uploads := state.uploads.setPhase request .refused }.setAnswer request
            (.failed status))
        else none
      | _ => none
  | .act event mtime =>
    if mayAct works state event && isFresh state event mtime then
      (Uploads.step (fun request ↦ (works request).request) state.uploads event).map fun uploads ↦
        { state.follow event mtime with uploads }
    else none
  | .answer request fails =>
    match works request with
    | .upload _ => none
    | .save _ =>
      if (state.answers request).isSome then none
      else
        match state.uploads.phases request with
        | .refused => some (state.setAnswer request (.failed .conflict))
        | .done =>
          if state.commits request = none then some (state.setAnswer request (.failed .ioError))
          else
            let after := if fails then none else state.current
            let mtime := (after.map Version.mtime).getD 0
            some (state.setAnswer request (.saved (works request).request.body.length mtime))
        | _ => none

def Step (state : State) (event : Event) (state' : State) : Prop := step works state event = some state'

end System

end DhcpServer.Files.TextSaves
