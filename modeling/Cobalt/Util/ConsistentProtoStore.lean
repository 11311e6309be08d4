import Cobalt.Lib.Disk
import Cobalt.Lib.Loop
import Mathlib.Logic.Relation

/-!
# The consistent proto store

A `ConsistentProtoStore` keeps one message on the disk. A write goes through a temporary file and an
override file, so that at every moment one of the files that are read holds a whole message. Every
operation on the disk can fail, and the process can die before or after it. When the message could be
written to the stream of the temporary file, the flush at the end, in the destructor of the stream, is
taken to succeed: `Write` does not look at its result.

The way in which a file is opened for output is a parameter. The `PosixFileSystem` opens without
truncating, so what is left over of an earlier temporary file stays behind the new message.

## Main definitions

* `write`, `read`: the two methods of the store.
* `replaceContents`, `overlayContents`: two ways of opening a file for output.
* `Holds`: which message the files of the store hold.

## Main results

* `read_write_iff`: over the `PosixFileSystem`, a successful write can be read back if and only if
  the rest of the old temporary file does not change how the message is parsed.
* `read_eq_last_moved`: over a file system that replaces contents, the store holds the message of
  the last write whose temporary file was moved, whatever fails.
-/

namespace Cobalt.Util

/-! ### Statuses and scripts -/

/-- The status codes that occur here. -/
inductive StatusCode
  | INVALID_ARGUMENT
  | NOT_FOUND
  | PERMISSION_DENIED
  | RESOURCE_EXHAUSTED
  | ABORTED
  | DATA_LOSS
  deriving DecidableEq, Repr

/-- An error, with its code and message; the details name the value of `errno`. -/
structure Error where
  code : StatusCode
  message : String
  deriving DecidableEq, Repr

/-- How an operation on the file system goes. It takes effect, or it returns an error, or the
process dies before or after it takes effect. -/
inductive Outcome
  | ok
  | fail
  | crashBefore
  | crashAfter
  deriving DecidableEq, Repr

/-- How the operations of one call of `Write` go. A write to the temporary file that does not
succeed leaves any contents in it, and the code of the error with which the file cannot be opened
is chosen by the operating system. -/
structure Script where
  recoverDelete : Outcome := .ok
  recoverMove : Outcome := .ok
  openTmp : Outcome := .ok
  writeTmp : Outcome := .ok
  moveTmp : Outcome := .ok
  deletePrimary : Outcome := .ok
  moveOverride : Outcome := .ok
  tmpLeft : Option Bytes := none
  openCode : StatusCode := .DATA_LOSS
  deriving DecidableEq, Repr

/-- What a step returns, unless the process has died. -/
inductive Result
  | ok
  | error (e : Error)
  | crash
  deriving DecidableEq, Repr

/-- The serialization of messages, which is done by the protocol buffer library. -/
structure Codec (M : Type) where
  serialize : M → Bytes
  parse : Bytes → Option M

/-- A message can be parsed from what it is serialized to. -/
def Codec.Lawful {M : Type} (codec : Codec M) : Prop :=
  ∀ m, codec.parse (codec.serialize m) = some m

/-! ### The methods of the store -/

def kTmpSuffix : String := ".tmp"

def kOverrideSuffix : String := ".override"

/-- The contents of a file that was truncated when it was opened for output. -/
def replaceContents (_ : Option Bytes) (new : Bytes) : Bytes := new

/-- The contents of a file that was opened with `O_WRONLY | O_CREAT`, as the `PosixFileSystem` does
when it is not told to append. -/
def overlayContents (old : Option Bytes) (new : Bytes) : Bytes := overlay (old.getD []) new

/-- The files of a store, and the messages of the writes so far whose temporary file was moved. No
step reads these. -/
structure StoreState (M : Type) where
  disk : Disk
  moved : List M := []

section Methods

variable {M : Type}

/-- An operation with its outcome: its effect where it is possible, the state where it does not take
effect, and the error that is then returned. -/
def perform (outcome : Outcome) (effect : Option (StoreState M)) (failed : StoreState M)
    (error : Error) : Result × StoreState M :=
  match outcome, effect with
  | .ok, some s => (.ok, s)
  | .crashAfter, some s => (.crash, s)
  | .crashBefore, _ => (.crash, failed)
  | _, _ => (.error error, failed)

/-- The error of a rename that fails. -/
def renameError (code : StatusCode) (src dst : String) : Error :=
  ⟨code, "Unable to rename `" ++ src ++ "` => `" ++ dst ++ "`."⟩

/-- A rename on the disk. -/
def StoreState.rename (s : StoreState M) (src dst : String) : Option (StoreState M) :=
  (s.disk.rename src dst).map fun disk => { s with disk := disk }

/-- A file gets new contents. -/
def StoreState.put (s : StoreState M) (name : String) (bytes : Bytes) : StoreState M :=
  { s with disk := s.disk.insert name bytes }

/-- A file is removed. -/
def StoreState.remove (s : StoreState M) (name : String) : StoreState M :=
  { s with disk := s.disk.erase name }

/-- The temporary file after a write that did not succeed. -/
def StoreState.leaveTmp (s : StoreState M) (tmpFilename : String) (left : Option Bytes) :
    StoreState M :=
  match left with
  | some bytes => s.put tmpFilename bytes
  | none => s.remove tmpFilename

variable (contents : Option Bytes → Bytes → Bytes) (codec : Codec M) (script : Script)
  (primaryFilename : String) (m : M)

/-- `WriteToTmp`. -/
def writeToTmp (tmpFilename : String) (s : StoreState M) : Result × StoreState M :=
  match script.openTmp with
  | .ok =>
    perform script.writeTmp
      (some (s.put tmpFilename (contents (s.disk.lookup tmpFilename) (codec.serialize m))))
      (s.leaveTmp tmpFilename script.tmpLeft)
      ⟨.DATA_LOSS, "Unable to serialize proto to the output stream."⟩
  | .fail =>
    (.error ⟨script.openCode, "Unable to open file [" ++ tmpFilename ++ "] in write mode."⟩, s)
  | .crashBefore => (.crash, s)
  | .crashAfter => (.crash, s.leaveTmp tmpFilename script.tmpLeft)

/-- `MoveTmpToOverride`. -/
def moveTmpToOverride (tmpFilename overrideFilename : String) (s : StoreState M) :
    Result × StoreState M :=
  perform script.moveTmp
    ((s.rename tmpFilename overrideFilename).map fun s => { s with moved := s.moved ++ [m] }) s
    (renameError .DATA_LOSS tmpFilename overrideFilename)

/-- `DeletePrimary`. A file that does not exist need not be deleted. -/
def deletePrimary (outcome : Outcome) (s : StoreState M) : Result × StoreState M :=
  if (s.disk.lookup primaryFilename).isNone then (.ok, s)
  else perform outcome (some (s.remove primaryFilename)) s
    ⟨.ABORTED, "Unable to remove old file `" ++ primaryFilename ++ "`."⟩

/-- `MoveOverrideToPrimary`. -/
def moveOverrideToPrimary (outcome : Outcome) (overrideFilename : String) (s : StoreState M) :
    Result × StoreState M :=
  perform outcome (s.rename overrideFilename primaryFilename) s
    (renameError .ABORTED overrideFilename primaryFilename)

/-- The first part of `Write`: an override file that an earlier call has left is moved to its place.
Errors of the deletion are ignored. -/
def recover (s : StoreState M) : Result × StoreState M :=
  let overrideFilename := primaryFilename ++ kOverrideSuffix
  if (s.disk.lookup overrideFilename).isSome then
    let r := deletePrimary primaryFilename script.recoverDelete s
    if r.1 = .crash then r
    else
      match moveOverrideToPrimary primaryFilename script.recoverMove overrideFilename r.2 with
      | (.error e, s) => (.error { e with message := "Error during recovery: " ++ e.message }, s)
      | r => r
  else (.ok, s)

/-- The steps of `Write`. -/
def writeSteps : List (StoreState M → Result × StoreState M) :=
  let tmpFilename := primaryFilename ++ kTmpSuffix
  let overrideFilename := primaryFilename ++ kOverrideSuffix
  [recover script primaryFilename,
    writeToTmp contents codec script m tmpFilename,
    moveTmpToOverride script m tmpFilename overrideFilename,
    deletePrimary primaryFilename script.deletePrimary,
    moveOverrideToPrimary primaryFilename script.moveOverride overrideFilename]

/-- `Write`: the steps, up to the first one that returns an error or does not return. -/
def write (s : StoreState M) : Result × StoreState M :=
  Loop.runAll .ok (fun step s => step s) (writeSteps contents codec script primaryFilename m) s

/-- `Read`. The override file is read if there is one that can be parsed, and else the primary
file. -/
def read (disk : Disk) : Except Error M :=
  match (disk.lookup (primaryFilename ++ kOverrideSuffix)).bind codec.parse with
  | some m => .ok m
  | none =>
    match disk.lookup primaryFilename with
    | none =>
      .error ⟨.NOT_FOUND, "Unable to open file [" ++ primaryFilename ++ "] in read mode."⟩
    | some bytes =>
      match codec.parse bytes with
      | some m => .ok m
      | none => .error ⟨.INVALID_ARGUMENT,
          "Unable to parse the protobuf from the store. Data is corrupt."⟩

end Methods

/-! ### What each step does -/

section Steps

variable {M : Type} (contents : Option Bytes → Bytes → Bytes) (codec : Codec M) (script : Script)
  (primaryFilename : String) (m : M)

theorem tmp_ne_primary :
    primaryFilename ++ kTmpSuffix ≠ primaryFilename := by
  intro h
  have hlength := congrArg String.length h
  simp [kTmpSuffix] at hlength

theorem override_ne_primary :
    primaryFilename ++ kOverrideSuffix ≠ primaryFilename := by
  intro h
  have hlength := congrArg String.length h
  simp [kOverrideSuffix] at hlength

theorem tmp_ne_override :
    primaryFilename ++ kTmpSuffix ≠ primaryFilename ++ kOverrideSuffix := by
  intro h
  have hlength := congrArg String.length h
  simp only [String.length_append, Nat.add_left_cancel_iff] at hlength
  exact absurd hlength (by decide)

/-- One operation takes effect, with or without a crash after it, or leaves the state of an
operation that failed. -/
theorem perform_cases (outcome : Outcome) (effect : Option (StoreState M)) (failed : StoreState M)
    (error : Error) :
    (∃ s', effect = some s' ∧ (perform outcome effect failed error).2 = s') ∨
      ((perform outcome effect failed error).1 ≠ .ok ∧
        (perform outcome effect failed error).2 = failed) := by
  cases outcome <;> cases effect <;> simp [perform]

@[simp] theorem lookup_put (s : StoreState M) (name name' : String) (bytes : Bytes) :
    (s.put name bytes).disk.lookup name' = if name' = name then some bytes
      else s.disk.lookup name' :=
  ProtoMap.lookup_insert_eq_ite _ _ _ _

@[simp] theorem lookup_remove (s : StoreState M) (name name' : String) :
    (s.remove name).disk.lookup name' = if name' = name then none else s.disk.lookup name' :=
  Disk.lookup_erase _ _ _

theorem lookup_storeRename {s s' : StoreState M} {src dst : String} (h : s.rename src dst = some s') :
    s'.moved = s.moved ∧ ∀ name, s'.disk.lookup name = if name = dst then s.disk.lookup src
      else if name = src then none else s.disk.lookup name := by
  obtain ⟨disk, hdisk, rfl⟩ := Option.map_eq_some_iff.mp h
  exact ⟨rfl, Disk.lookup_rename hdisk⟩

/-- `WriteToTmp` changes the temporary file alone, and if it succeeds this file has the new
contents. -/
theorem writeToTmp_spec (tmpFilename : String) (s : StoreState M) :
    let r := writeToTmp contents codec script m tmpFilename s
    r.2.moved = s.moved ∧
      (∀ name, name ≠ tmpFilename → r.2.disk.lookup name = s.disk.lookup name) ∧
      (r.1 = .ok → r.2.disk.lookup tmpFilename =
        some (contents (s.disk.lookup tmpFilename) (codec.serialize m))) := by
  have hleave : (s.leaveTmp tmpFilename script.tmpLeft).moved = s.moved ∧
      ∀ name, name ≠ tmpFilename →
        (s.leaveTmp tmpFilename script.tmpLeft).disk.lookup name = s.disk.lookup name := by
    unfold StoreState.leaveTmp
    cases script.tmpLeft with
    | none => exact ⟨rfl, fun name hne => by rw [lookup_remove, if_neg hne]⟩
    | some bytes => exact ⟨rfl, fun name hne => by rw [lookup_put, if_neg hne]⟩
  dsimp only
  rw [writeToTmp]
  cases script.openTmp with
  | ok =>
    rcases perform_cases script.writeTmp
        (some (s.put tmpFilename (contents (s.disk.lookup tmpFilename) (codec.serialize m))))
        (s.leaveTmp tmpFilename script.tmpLeft)
        ⟨.DATA_LOSS, "Unable to serialize proto to the output stream."⟩ with
      ⟨s', heffect, heq⟩ | ⟨hne, heq⟩
    · obtain rfl := Option.some.inj heffect
      dsimp only
      rw [heq]
      exact ⟨rfl, fun name hne => by rw [lookup_put, if_neg hne],
        fun _ => by rw [lookup_put, if_pos rfl]⟩
    · dsimp only
      rw [heq]
      exact ⟨hleave.1, hleave.2, fun h => absurd h hne⟩
  | fail => exact ⟨rfl, fun _ _ => rfl, fun h => absurd h (by simp)⟩
  | crashBefore => exact ⟨rfl, fun _ _ => rfl, fun h => absurd h (by simp)⟩
  | crashAfter => exact ⟨hleave.1, hleave.2, fun h => absurd h (by simp)⟩

/-- `MoveTmpToOverride` does nothing, and then it does not succeed, or it moves the file. -/
theorem moveTmpToOverride_spec (tmpFilename overrideFilename : String) (s : StoreState M) :
    let r := moveTmpToOverride script m tmpFilename overrideFilename s
    (r.1 ≠ .ok ∧ r.2 = s) ∨ (r.2.moved = s.moved ++ [m] ∧
      ∀ name, r.2.disk.lookup name = if name = overrideFilename then s.disk.lookup tmpFilename
        else if name = tmpFilename then none else s.disk.lookup name) := by
  dsimp only
  rw [moveTmpToOverride]
  rcases perform_cases script.moveTmp ((s.rename tmpFilename overrideFilename).map fun s =>
      { s with moved := s.moved ++ [m] }) s (renameError .DATA_LOSS tmpFilename overrideFilename)
    with ⟨s', heffect, heq⟩ | hfailed
  · obtain ⟨s₁, hrename, rfl⟩ := Option.map_eq_some_iff.mp heffect
    obtain ⟨hmoved, hlookup⟩ := lookup_storeRename hrename
    rw [heq]
    exact Or.inr ⟨by rw [hmoved], hlookup⟩
  · exact Or.inl hfailed

/-- `DeletePrimary` changes the primary file alone. -/
theorem deletePrimary_spec (outcome : Outcome) (s : StoreState M) :
    let r := deletePrimary primaryFilename outcome s
    r.2.moved = s.moved ∧
      ∀ name, name ≠ primaryFilename → r.2.disk.lookup name = s.disk.lookup name := by
  dsimp only
  rw [deletePrimary]
  split_ifs
  · exact ⟨rfl, fun _ _ => rfl⟩
  · rcases perform_cases outcome (some (s.remove primaryFilename)) s
        ⟨.ABORTED, "Unable to remove old file `" ++ primaryFilename ++ "`."⟩ with
      ⟨s', heffect, heq⟩ | ⟨_, heq⟩
    · obtain rfl := Option.some.inj heffect
      rw [heq]
      exact ⟨rfl, fun name hne => by rw [lookup_remove, if_neg hne]⟩
    · rw [heq]
      exact ⟨rfl, fun _ _ => rfl⟩

/-- `MoveOverrideToPrimary` does nothing, and then it does not succeed, or it moves the file. -/
theorem moveOverrideToPrimary_spec (outcome : Outcome) (overrideFilename : String)
    (s : StoreState M) :
    let r := moveOverrideToPrimary primaryFilename outcome overrideFilename s
    (r.1 ≠ .ok ∧ r.2 = s) ∨ (r.2.moved = s.moved ∧ (s.disk.lookup overrideFilename).isSome ∧
      ∀ name, r.2.disk.lookup name = if name = primaryFilename then s.disk.lookup overrideFilename
        else if name = overrideFilename then none else s.disk.lookup name) := by
  dsimp only
  rw [moveOverrideToPrimary]
  rcases perform_cases outcome (s.rename overrideFilename primaryFilename) s
      (renameError .ABORTED overrideFilename primaryFilename) with
    ⟨s', heffect, heq⟩ | hfailed
  · obtain ⟨hmoved, hlookup⟩ := lookup_storeRename heffect
    obtain ⟨disk, hdisk, _⟩ := Option.map_eq_some_iff.mp heffect
    obtain ⟨bytes, hbytes, _⟩ := Option.map_eq_some_iff.mp hdisk
    rw [heq]
    exact Or.inr ⟨hmoved, by rw [hbytes]; rfl, hlookup⟩
  · exact Or.inl hfailed

/-- The recovery does nothing if there is no override file. Else it tries to delete the primary
file, and then it stops or tries to move the override file. -/
theorem recover_cases (s : StoreState M) :
    let r := recover script primaryFilename s
    let overrideFilename := primaryFilename ++ kOverrideSuffix
    let s₁ := (deletePrimary primaryFilename script.recoverDelete s).2
    let move := moveOverrideToPrimary primaryFilename script.recoverMove overrideFilename s₁
    (s.disk.lookup overrideFilename = none ∧ r = (.ok, s)) ∨
      ((s.disk.lookup overrideFilename).isSome ∧
        ((r.1 ≠ .ok ∧ r.2 = s₁) ∨ (r.2 = move.2 ∧ (r.1 = .ok → move.1 = .ok)))) := by
  dsimp only
  rw [recover]
  dsimp only
  split_ifs with hsome hcrash
  · exact Or.inr ⟨hsome, Or.inl ⟨by rw [hcrash]; simp, rfl⟩⟩
  · refine Or.inr ⟨hsome, Or.inr ?_⟩
    rcases moveOverrideToPrimary primaryFilename script.recoverMove
      (primaryFilename ++ kOverrideSuffix)
      (deletePrimary primaryFilename script.recoverDelete s).2 with ⟨_ | e | _, s'⟩
    · exact ⟨rfl, fun _ => rfl⟩
    · exact ⟨rfl, fun h => absurd h (by simp)⟩
    · exact ⟨rfl, fun h => absurd h (by simp)⟩
  · exact Or.inl ⟨by simpa using hsome, rfl⟩

/-- The recovery does not touch the temporary file, and if it succeeds there is no override file
left. -/
theorem recover_spec (s : StoreState M) :
    let r := recover script primaryFilename s
    r.2.disk.lookup (primaryFilename ++ kTmpSuffix) =
        s.disk.lookup (primaryFilename ++ kTmpSuffix) ∧
      (r.1 = .ok → r.2.disk.lookup (primaryFilename ++ kOverrideSuffix) = none) := by
  have hne := tmp_ne_primary primaryFilename
  have hne' := tmp_ne_override primaryFilename
  have hdelete := (deletePrimary_spec primaryFilename script.recoverDelete s).2 _ hne
  dsimp only
  rcases recover_cases script primaryFilename s with
    ⟨hnone, heq⟩ | ⟨_, ⟨hfailed, heq⟩ | ⟨heq, hok⟩⟩
  · rw [heq]
    exact ⟨rfl, fun _ => hnone⟩
  · rw [heq]
    exact ⟨hdelete, fun h => absurd h hfailed⟩
  · rw [heq]
    rcases moveOverrideToPrimary_spec primaryFilename script.recoverMove
        (primaryFilename ++ kOverrideSuffix)
        (deletePrimary primaryFilename script.recoverDelete s).2 with
      ⟨hfailed, hsame⟩ | ⟨_, _, hlookup⟩
    · rw [hsame]
      exact ⟨hdelete, fun h => absurd (hok h) hfailed⟩
    · rw [hlookup, hlookup, if_neg hne, if_neg hne', if_neg (override_ne_primary _), if_pos rfl]
      exact ⟨hdelete, fun _ => rfl⟩

/-- A write ends at the first of its steps that does not succeed, or after the last one. -/
theorem write_cases (s : StoreState M) :
    let tmpFilename := primaryFilename ++ kTmpSuffix
    let overrideFilename := primaryFilename ++ kOverrideSuffix
    let r := write contents codec script primaryFilename m s
    let r₁ := recover script primaryFilename s
    let r₂ := writeToTmp contents codec script m tmpFilename r₁.2
    let r₃ := moveTmpToOverride script m tmpFilename overrideFilename r₂.2
    let r₄ := deletePrimary primaryFilename script.deletePrimary r₃.2
    let r₅ := moveOverrideToPrimary primaryFilename script.moveOverride overrideFilename r₄.2
    (r₁.1 ≠ .ok ∧ r = r₁) ∨ (r₁.1 = .ok ∧ ((r₂.1 ≠ .ok ∧ r = r₂) ∨ (r₂.1 = .ok ∧
      ((r₃.1 ≠ .ok ∧ r = r₃) ∨ (r₃.1 = .ok ∧
        ((r₄.1 ≠ .ok ∧ r = r₄) ∨ (r₄.1 = .ok ∧ r = r₅))))))) := by
  dsimp only
  rw [write, writeSteps]
  simp only [Loop.runAll]
  split_ifs with h₁ h₂ h₃ h₄ h₅
  · exact Or.inr ⟨h₁, Or.inr ⟨h₂, Or.inr ⟨h₃, Or.inr ⟨h₄, Prod.ext h₅.symm rfl⟩⟩⟩⟩
  · exact Or.inr ⟨h₁, Or.inr ⟨h₂, Or.inr ⟨h₃, Or.inr ⟨h₄, rfl⟩⟩⟩⟩
  · exact Or.inr ⟨h₁, Or.inr ⟨h₂, Or.inr ⟨h₃, Or.inl ⟨h₄, rfl⟩⟩⟩⟩
  · exact Or.inr ⟨h₁, Or.inr ⟨h₂, Or.inl ⟨h₃, rfl⟩⟩⟩
  · exact Or.inr ⟨h₁, Or.inl ⟨h₂, rfl⟩⟩
  · exact Or.inl ⟨h₁, rfl⟩

/-- A write that succeeds leaves the contents of the new temporary file in the primary file, and
no other file. -/
theorem write_ok_disk (s : StoreState M)
    (hok : (write contents codec script primaryFilename m s).1 = .ok) :
    let disk := (write contents codec script primaryFilename m s).2.disk
    disk.lookup (primaryFilename ++ kOverrideSuffix) = none ∧
      disk.lookup primaryFilename =
        some (contents (s.disk.lookup (primaryFilename ++ kTmpSuffix)) (codec.serialize m)) ∧
      disk.lookup (primaryFilename ++ kTmpSuffix) = none := by
  dsimp only
  have hcases := write_cases contents codec script primaryFilename m s
  dsimp only at hcases
  rcases hcases with ⟨h, heq⟩ | ⟨_, ⟨h, heq⟩ | ⟨h₂, ⟨h, heq⟩ | ⟨h₃, ⟨h, heq⟩ | ⟨_, heq⟩⟩⟩⟩
  · exact absurd (heq ▸ hok) h
  · exact absurd (heq ▸ hok) h
  · exact absurd (heq ▸ hok) h
  · exact absurd (heq ▸ hok) h
  rw [heq] at hok ⊢
  obtain ⟨hfailed, _⟩ | ⟨_, _, hlookup₅⟩ := moveOverrideToPrimary_spec primaryFilename
    script.moveOverride (primaryFilename ++ kOverrideSuffix)
    (deletePrimary primaryFilename script.deletePrimary _).2
  · exact absurd hok hfailed
  obtain ⟨hfailed, _⟩ | ⟨_, hlookup₃⟩ := moveTmpToOverride_spec script m
    (primaryFilename ++ kTmpSuffix) (primaryFilename ++ kOverrideSuffix) _
  · exact absurd h₃ hfailed
  rw [hlookup₅, hlookup₅, hlookup₅, if_neg (override_ne_primary _), if_pos rfl, if_pos rfl,
    if_neg (tmp_ne_primary _), if_neg (tmp_ne_override _)]
  refine ⟨rfl, ?_, ?_⟩
  · rw [(deletePrimary_spec primaryFilename script.deletePrimary _).2 _ (override_ne_primary _),
      hlookup₃, if_pos rfl, (writeToTmp_spec contents codec script m _ _).2.2 h₂,
      (recover_spec script primaryFilename s).1]
  · rw [(deletePrimary_spec primaryFilename script.deletePrimary _).2 _ (tmp_ne_primary _), hlookup₃,
      if_neg (tmp_ne_override _), if_pos rfl]

theorem perform_ok {effect : Option (StoreState M)} (h : effect.isSome) (failed : StoreState M)
    (error : Error) : (perform .ok effect failed error).1 = .ok := by
  obtain ⟨s, rfl⟩ := Option.isSome_iff_exists.mp h
  rfl

theorem StoreState.rename_isSome {s : StoreState M} {src : String} (h : (s.disk.lookup src).isSome)
    (dst : String) : (s.rename src dst).isSome := by
  rw [StoreState.rename, Option.isSome_map]
  exact Disk.rename_isSome h dst

theorem deletePrimary_ok (s : StoreState M) : (deletePrimary primaryFilename .ok s).1 = .ok := by
  rw [deletePrimary]
  split_ifs
  · rfl
  · exact perform_ok rfl _ _

theorem recover_ok (s : StoreState M) : (recover {} primaryFilename s).1 = .ok := by
  have hne := override_ne_primary primaryFilename
  rw [recover]
  dsimp only
  split_ifs with hsome hcrash
  · exact absurd hcrash (by rw [deletePrimary_ok]; simp)
  · have hmove : (moveOverrideToPrimary primaryFilename .ok (primaryFilename ++ kOverrideSuffix)
        (deletePrimary primaryFilename .ok s).2).1 = .ok := by
      refine perform_ok (StoreState.rename_isSome ?_ _) _ _
      rwa [(deletePrimary_spec primaryFilename .ok s).2 _ hne]
    split
    · simp_all
    · exact hmove
  · rfl

/-- If no operation fails, a write succeeds. -/
theorem write_ok (s : StoreState M) : (write contents codec {} primaryFilename m s).1 = .ok := by
  have hcases := write_cases contents codec {} primaryFilename m s
  dsimp only at hcases
  rcases hcases with ⟨h, _⟩ | ⟨_, ⟨h, _⟩ | ⟨h₂, ⟨h, _⟩ | ⟨h₃, ⟨h, _⟩ | ⟨_, heq⟩⟩⟩⟩
  · exact absurd (recover_ok primaryFilename s) h
  · exact absurd rfl h
  · refine absurd (perform_ok ?_ _ _) h
    rw [Option.isSome_map]
    refine StoreState.rename_isSome ?_ _
    rw [(writeToTmp_spec contents codec {} m _ _).2.2 h₂]
    rfl
  · exact absurd (deletePrimary_ok primaryFilename _) h
  · rw [heq]
    obtain ⟨hfailed, _⟩ | ⟨_, hlookup₃⟩ := moveTmpToOverride_spec {} m
      (primaryFilename ++ kTmpSuffix) (primaryFilename ++ kOverrideSuffix) _
    · exact absurd h₃ hfailed
    refine perform_ok (StoreState.rename_isSome ?_ _) _ _
    rw [(deletePrimary_spec primaryFilename .ok _).2 _ (override_ne_primary _), hlookup₃,
      if_pos rfl, (writeToTmp_spec contents codec {} m _ _).2.2 h₂]
    rfl

/-- A write changes none but the three files of the store. -/
theorem write_lookup_of_ne (s : StoreState M) {name : String} (hprimary : name ≠ primaryFilename)
    (htmp : name ≠ primaryFilename ++ kTmpSuffix)
    (hoverride : name ≠ primaryFilename ++ kOverrideSuffix) :
    (write contents codec script primaryFilename m s).2.disk.lookup name =
      s.disk.lookup name := by
  have hdelete (outcome : Outcome) (s : StoreState M) :=
    (deletePrimary_spec primaryFilename outcome s).2 name hprimary
  have hmove (outcome : Outcome) (s : StoreState M) :
      (moveOverrideToPrimary primaryFilename outcome (primaryFilename ++ kOverrideSuffix)
        s).2.disk.lookup name = s.disk.lookup name := by
    rcases moveOverrideToPrimary_spec primaryFilename outcome (primaryFilename ++ kOverrideSuffix) s
      with ⟨_, hsame⟩ | ⟨_, _, hlookup⟩
    · rw [hsame]
    · rw [hlookup, if_neg hprimary, if_neg hoverride]
  have h₁ : (recover script primaryFilename s).2.disk.lookup name = s.disk.lookup name := by
    rcases recover_cases script primaryFilename s with ⟨_, heq⟩ | ⟨_, ⟨_, heq⟩ | ⟨heq, _⟩⟩
    · rw [heq]
    · rw [heq, hdelete]
    · rw [heq, hmove, hdelete]
  have h₂ (s : StoreState M) := (writeToTmp_spec contents codec script m
    (primaryFilename ++ kTmpSuffix) s).2.1 name htmp
  have h₃ (s : StoreState M) : (moveTmpToOverride script m (primaryFilename ++ kTmpSuffix)
      (primaryFilename ++ kOverrideSuffix) s).2.disk.lookup name = s.disk.lookup name := by
    rcases moveTmpToOverride_spec script m (primaryFilename ++ kTmpSuffix)
      (primaryFilename ++ kOverrideSuffix) s with ⟨_, hsame⟩ | ⟨_, hlookup⟩
    · rw [hsame]
    · rw [hlookup, if_neg hoverride, if_neg htmp]
  have hcases := write_cases contents codec script primaryFilename m s
  dsimp only at hcases
  rcases hcases with ⟨_, heq⟩ | ⟨_, ⟨_, heq⟩ | ⟨_, ⟨_, heq⟩ | ⟨_, ⟨_, heq⟩ | ⟨_, heq⟩⟩⟩⟩
  · rw [heq, h₁]
  · rw [heq, h₂, h₁]
  · rw [heq, h₃, h₂, h₁]
  · rw [heq, hdelete, h₃, h₂, h₁]
  · rw [heq, hmove, hdelete, h₃, h₂, h₁]

/-- The process dies, or an operation fails, after the primary file was deleted and before the
override file has its name. -/
def Script.DropsPrimary (script : Script) : Prop :=
  script.openTmp = .ok ∧ script.writeTmp = .ok ∧ script.moveTmp = .ok ∧
    (script.deletePrimary = .crashAfter ∨ script.deletePrimary = .ok ∧
      (script.moveOverride = .fail ∨ script.moveOverride = .crashBefore))

instance : DecidablePred Script.DropsPrimary :=
  fun _ => inferInstanceAs (Decidable (_ ∧ _ ∧ _ ∧ _))

theorem perform_ok_iff {effect : Option (StoreState M)} (h : effect.isSome) (outcome : Outcome)
    (failed : StoreState M) (error : Error) :
    (perform outcome effect failed error).1 = .ok ↔ outcome = .ok := by
  obtain ⟨s, rfl⟩ := Option.isSome_iff_exists.mp h
  cases outcome <;> simp [perform]

theorem writeToTmp_ok_iff (tmpFilename : String) (s : StoreState M) :
    (writeToTmp contents codec script m tmpFilename s).1 = .ok ↔
      script.openTmp = .ok ∧ script.writeTmp = .ok := by
  rw [writeToTmp]
  cases script.openTmp with
  | ok => simp [perform_ok_iff]
  | fail => simp
  | crashBefore => simp
  | crashAfter => simp

/-- The last two steps, where both files are there. -/
theorem lookup_primary_deleteMove {s : StoreState M} (hprimary : (s.disk.lookup primaryFilename).isSome)
    (hoverride : (s.disk.lookup (primaryFilename ++ kOverrideSuffix)).isSome) :
    let r₄ := deletePrimary primaryFilename script.deletePrimary s
    let r₅ := moveOverrideToPrimary primaryFilename script.moveOverride
      (primaryFilename ++ kOverrideSuffix) r₄.2
    (if r₄.1 = .ok then r₅ else r₄).2.disk.lookup primaryFilename = none ↔
      script.deletePrimary = .crashAfter ∨ script.deletePrimary = .ok ∧
        (script.moveOverride = .fail ∨ script.moveOverride = .crashBefore) := by
  have hsome : ¬ (s.disk.lookup primaryFilename).isNone := by
    rw [Option.isNone_iff_eq_none]
    exact Option.isSome_iff_ne_none.mp hprimary
  have hremoved : (s.remove primaryFilename).disk.lookup primaryFilename = none := by
    rw [lookup_remove, if_pos rfl]
  have hkept : (s.remove primaryFilename).disk.lookup (primaryFilename ++ kOverrideSuffix) =
      s.disk.lookup (primaryFilename ++ kOverrideSuffix) := by
    rw [lookup_remove, if_neg (override_ne_primary _)]
  obtain ⟨s', hrename⟩ := Option.isSome_iff_exists.mp
    (StoreState.rename_isSome (s := s.remove primaryFilename) (hkept ▸ hoverride) primaryFilename)
  have hmoved : s'.disk.lookup primaryFilename ≠ none := by
    rw [(lookup_storeRename hrename).2, if_pos rfl, hkept]
    exact Option.isSome_iff_ne_none.mp hoverride
  dsimp only
  rw [deletePrimary, if_neg hsome]
  cases script.deletePrimary with
  | ok =>
    rw [moveOverrideToPrimary]
    cases script.moveOverride <;> simp [perform, hrename, hremoved, hmoved]
  | fail => simpa [perform] using Option.isSome_iff_ne_none.mp hprimary
  | crashBefore => simpa [perform] using Option.isSome_iff_ne_none.mp hprimary
  | crashAfter => simp [perform]

/-- The primary file is missing after a write that found one, and no override file, only if the
write is cut short between the deletion and the rename. -/
theorem write_primary_eq_none_iff {s : StoreState M}
    (hoverride : s.disk.lookup (primaryFilename ++ kOverrideSuffix) = none)
    (hprimary : (s.disk.lookup primaryFilename).isSome) :
    (write contents codec script primaryFilename m s).2.disk.lookup primaryFilename = none ↔
      script.DropsPrimary := by
  have h₁ : recover script primaryFilename s = (.ok, s) := by
    rcases recover_cases script primaryFilename s with ⟨_, heq⟩ | ⟨hsome, _⟩
    · exact heq
    · rw [hoverride] at hsome
      exact absurd hsome (by simp)
  have hcases := write_cases contents codec script primaryFilename m s
  dsimp only at hcases
  rw [h₁] at hcases
  dsimp only at hcases
  have hok₂ := writeToTmp_ok_iff contents codec script m (primaryFilename ++ kTmpSuffix) s
  obtain ⟨_, hlookup₂, htmp₂⟩ := writeToTmp_spec contents codec script m
    (primaryFilename ++ kTmpSuffix) s
  have hprimary₂ := hlookup₂ _ (tmp_ne_primary primaryFilename).symm
  rw [Script.DropsPrimary]
  generalize writeToTmp contents codec script m (primaryFilename ++ kTmpSuffix) s = r₂ at *
  obtain ⟨result₂, s₂⟩ := r₂
  dsimp only at hok₂ htmp₂ hprimary₂ hcases
  rw [← hprimary₂] at hprimary
  rcases hcases with ⟨h, _⟩ | ⟨_, ⟨hne, heq⟩ | ⟨rfl, hcases⟩⟩
  · exact absurd rfl h
  · rw [heq]
    refine iff_of_false (Option.isSome_iff_ne_none.mp hprimary) fun h => hne (hok₂.mpr ⟨h.1, h.2.1⟩)
  obtain ⟨hopen, hwrite⟩ := hok₂.mp rfl
  -- the temporary file is there, so that its rename goes as the script says
  have hrename : ((s₂.rename (primaryFilename ++ kTmpSuffix)
      (primaryFilename ++ kOverrideSuffix)).map fun s => { s with moved := s.moved ++ [m] }).isSome := by
    rw [Option.isSome_map]
    exact StoreState.rename_isSome (by rw [htmp₂ rfl]; rfl) _
  have hok₃ : (moveTmpToOverride script m (primaryFilename ++ kTmpSuffix)
      (primaryFilename ++ kOverrideSuffix) s₂).1 = .ok ↔ script.moveTmp = .ok :=
    perform_ok_iff hrename _ _ _
  have hspec₃ := moveTmpToOverride_spec script m (primaryFilename ++ kTmpSuffix)
    (primaryFilename ++ kOverrideSuffix) s₂
  generalize moveTmpToOverride script m (primaryFilename ++ kTmpSuffix)
    (primaryFilename ++ kOverrideSuffix) s₂ = r₃ at *
  obtain ⟨result₃, s₃⟩ := r₃
  dsimp only at hok₃ hspec₃ hcases
  have hprimary₃ : (s₃.disk.lookup primaryFilename).isSome := by
    rcases hspec₃ with ⟨_, rfl⟩ | ⟨_, hlookup₃⟩
    · exact hprimary
    · rwa [hlookup₃, if_neg (override_ne_primary _).symm, if_neg (tmp_ne_primary _).symm]
  rcases hcases with ⟨hne, heq⟩ | ⟨rfl, hcases⟩
  · rw [heq]
    exact iff_of_false (Option.isSome_iff_ne_none.mp hprimary₃) fun h => hne (hok₃.mpr h.2.2.1)
  have hmoveTmp := hok₃.mp rfl
  have hoverride₃ : (s₃.disk.lookup (primaryFilename ++ kOverrideSuffix)).isSome := by
    rcases hspec₃ with ⟨hne, _⟩ | ⟨_, hlookup₃⟩
    · exact absurd rfl hne
    · rw [hlookup₃, if_pos rfl, htmp₂ rfl]
      rfl
  simp only [hopen, hwrite, hmoveTmp, true_and]
  refine Iff.trans (Eq.to_iff ?_)
    (lookup_primary_deleteMove script primaryFilename hprimary₃ hoverride₃)
  rcases hcases with ⟨hne, heq⟩ | ⟨hok, heq⟩
  · rw [heq, if_neg hne]
  · rw [heq, if_pos hok]

theorem moveOverrideToPrimary_moved (outcome : Outcome) (overrideFilename : String)
    (s : StoreState M) :
    (moveOverrideToPrimary primaryFilename outcome overrideFilename s).2.moved = s.moved := by
  rcases moveOverrideToPrimary_spec primaryFilename outcome overrideFilename s with
    ⟨_, hsame⟩ | ⟨hmoved, _⟩
  · rw [hsame]
  · exact hmoved

/-- The messages that were moved are as before, or there is the new one too. -/
theorem write_moved (s : StoreState M) :
    (write contents codec script primaryFilename m s).2.moved = s.moved ∨
      (write contents codec script primaryFilename m s).2.moved = s.moved ++ [m] := by
  have hrecover : (recover script primaryFilename s).2.moved = s.moved := by
    have hdelete := (deletePrimary_spec primaryFilename script.recoverDelete s).1
    rcases recover_cases script primaryFilename s with ⟨_, heq⟩ | ⟨_, ⟨_, heq⟩ | ⟨heq, _⟩⟩
    · rw [heq]
    · rw [heq, hdelete]
    · rw [heq, moveOverrideToPrimary_moved, hdelete]
  have htmp (s : StoreState M) := (writeToTmp_spec contents codec script m
    (primaryFilename ++ kTmpSuffix) s).1
  have hmove (s : StoreState M) : (moveTmpToOverride script m (primaryFilename ++ kTmpSuffix)
        (primaryFilename ++ kOverrideSuffix) s).2.moved = s.moved ∨
      (moveTmpToOverride script m (primaryFilename ++ kTmpSuffix)
        (primaryFilename ++ kOverrideSuffix) s).2.moved = s.moved ++ [m] := by
    rcases moveTmpToOverride_spec script m (primaryFilename ++ kTmpSuffix)
      (primaryFilename ++ kOverrideSuffix) s with ⟨_, hsame⟩ | ⟨hmoved, _⟩
    · exact Or.inl (congrArg StoreState.moved hsame)
    · exact Or.inr hmoved
  have hmoved := hmove (writeToTmp contents codec script m (primaryFilename ++ kTmpSuffix)
    (recover script primaryFilename s).2).2
  rw [htmp, hrecover] at hmoved
  have hdelete (s : StoreState M) :=
    (deletePrimary_spec primaryFilename script.deletePrimary s).1
  have hcases := write_cases contents codec script primaryFilename m s
  dsimp only at hcases
  rcases hcases with ⟨_, heq⟩ | ⟨_, ⟨_, heq⟩ | ⟨_, ⟨_, heq⟩ | ⟨_, ⟨_, heq⟩ | ⟨_, heq⟩⟩⟩⟩
  · rw [heq]
    exact Or.inl hrecover
  · rw [heq, htmp]
    exact Or.inl hrecover
  · rw [heq]
    exact hmoved
  · rw [heq, hdelete]
    exact hmoved
  · rw [heq, moveOverrideToPrimary_moved, hdelete]
    exact hmoved

end Steps

/-! ### Reading back what was written -/

section ReadBack

variable {M : Type} (codec : Codec M) (primaryFilename : String)

/-- What is read when there is no override file. -/
theorem read_of_override_eq_none {disk : Disk} {bytes : Bytes}
    (hoverride : disk.lookup (primaryFilename ++ kOverrideSuffix) = none)
    (hprimary : disk.lookup primaryFilename = some bytes) (m : M) :
    read codec primaryFilename disk = .ok m ↔ codec.parse bytes = some m := by
  rw [read, hoverride, hprimary]
  dsimp only [Option.bind_none]
  cases codec.parse bytes with
  | none => simp
  | some m' => simp

/-- A read depends on the override file and the primary file alone. -/
theorem read_congr {disk disk' : Disk}
    (hoverride : disk'.lookup (primaryFilename ++ kOverrideSuffix) =
      disk.lookup (primaryFilename ++ kOverrideSuffix))
    (hprimary : disk'.lookup primaryFilename = disk.lookup primaryFilename) :
    read codec primaryFilename disk' = read codec primaryFilename disk := by
  rw [read, read, hoverride, hprimary]

/-- A message that was written and whose contents of the temporary file parse can be read back. -/
theorem read_write_of_parse {contents : Option Bytes → Bytes → Bytes} {s s' : StoreState M} {m : M}
    {script : Script} (hwrite : write contents codec script primaryFilename m s = (.ok, s'))
    (hparse : codec.parse (contents (s.disk.lookup (primaryFilename ++ kTmpSuffix))
      (codec.serialize m)) = some m) : read codec primaryFilename s'.disk = .ok m := by
  obtain ⟨hoverride, hprimary, _⟩ :=
    write_ok_disk contents codec script primaryFilename m s (by rw [hwrite])
  rw [hwrite] at hoverride hprimary
  exact (read_of_override_eq_none codec primaryFilename hoverride hprimary m).mpr hparse

/-- In particular, over the `PosixFileSystem`, a message can be read back if the old temporary file
is not longer than it. -/
theorem read_write_of_length_le (hcodec : codec.Lawful) {s s' : StoreState M} {m : M}
    (hle : ((s.disk.lookup (primaryFilename ++ kTmpSuffix)).getD []).length ≤
      (codec.serialize m).length) {script : Script}
    (hwrite : write overlayContents codec script primaryFilename m s = (.ok, s')) :
    read codec primaryFilename s'.disk = .ok m := by
  refine read_write_of_parse codec primaryFilename hwrite ?_
  rw [overlayContents, overlay_of_length_le hle]
  exact hcodec m

/-- **Reading back a message**: over the `PosixFileSystem`, every write of a message that succeeds
is followed by a read of this message if and only if the message can be parsed when it is followed
by those bytes of an old temporary file that are beyond its length. -/
theorem read_write_iff (s : StoreState M) (m : M) :
    (∀ script s', write overlayContents codec script primaryFilename m s = (.ok, s') →
        read codec primaryFilename s'.disk = .ok m) ↔
      codec.parse (overlay ((s.disk.lookup (primaryFilename ++ kTmpSuffix)).getD [])
        (codec.serialize m)) = some m := by
  constructor
  · intro h
    have hok := write_ok overlayContents codec primaryFilename m s
    obtain ⟨hoverride, hprimary, _⟩ :=
      write_ok_disk overlayContents codec {} primaryFilename m s hok
    exact (read_of_override_eq_none codec primaryFilename hoverride hprimary m).mp
      (h {} _ (Prod.ext hok rfl))
  · intro hparse script s' hwrite
    exact read_write_of_parse codec primaryFilename hwrite hparse

/-- The serialization of a message with one field, a `bool` with the number 1: of several values of
the field, the last one counts. -/
def parseFlag : Bool → Bytes → Option Bool
  | flag, [] => some flag
  | _, 8 :: value :: bytes => if value < 128 then parseFlag (value ≠ 0) bytes else none
  | _, _ => none

@[inherit_doc parseFlag]
def flagCodec : Codec Bool where
  serialize flag := if flag then [8, 1] else []
  parse := parseFlag false

/-- A write whose temporary file cannot be moved leaves this file behind, and the next write, of a
message that is serialized to fewer bytes, succeeds. What is then read is the first message. -/
theorem read_write_stale :
    let first := write overlayContents flagCodec { moveTmp := .fail } "store" true { disk := ∅ }
    let second := write overlayContents flagCodec {} "store" false first.2
    second.1 = .ok ∧ read flagCodec "store" second.2.disk = .ok true := by
  decide +kernel

end ReadBack

/-! ### Failures and crashes -/

section Crashes

variable {M : Type} (codec : Codec M) (primaryFilename : String)

/-- The files hold a message: it is in the override file, or there is none and it is in the primary
file. They hold no message if there is neither file. -/
def Holds (disk : Disk) : Option M → Prop
  | some m => disk.lookup (primaryFilename ++ kOverrideSuffix) = some (codec.serialize m) ∨
      (disk.lookup (primaryFilename ++ kOverrideSuffix) = none ∧
        disk.lookup primaryFilename = some (codec.serialize m))
  | none => disk.lookup (primaryFilename ++ kOverrideSuffix) = none ∧
      disk.lookup primaryFilename = none

/-- A cell with at most one message, which is what a store is meant to be, read under the name of
its file. -/
def readCell : Option M → Except Error M
  | some m => .ok m
  | none => .error ⟨.NOT_FOUND, "Unable to open file [" ++ primaryFilename ++ "] in read mode."⟩

/-- The message of the last write whose temporary file was moved, or the initial one. -/
def StoreState.current (initial : Option M) (s : StoreState M) : Option M :=
  s.moved.getLast?.or initial

/-- A call of `Write` with some message, in which the operations go in some way. The store has no
state in memory, so that it does not matter whether the process is restarted. -/
def WriteStep (s s' : StoreState M) : Prop :=
  ∃ script m, s' = (write replaceContents codec script primaryFilename m s).2

variable {codec primaryFilename}

/-- A read returns the message that the files hold. -/
theorem Holds.read_eq (hcodec : codec.Lawful) {disk : Disk} {value : Option M}
    (h : Holds codec primaryFilename disk value) :
    read codec primaryFilename disk = readCell primaryFilename value := by
  cases value with
  | none =>
    obtain ⟨hoverride, hprimary⟩ := h
    rw [read, hoverride, hprimary]
    rfl
  | some m =>
    rcases h with hoverride | ⟨hoverride, hprimary⟩
    · rw [read, hoverride, Option.bind_some, hcodec m]
      rfl
    · exact (read_of_override_eq_none codec primaryFilename hoverride hprimary m).mpr (hcodec m)

/-- Which message the files hold depends on the override file and the primary file alone. -/
theorem Holds.congr {disk disk' : Disk} {value : Option M}
    (h : Holds codec primaryFilename disk value)
    (hoverride : disk'.lookup (primaryFilename ++ kOverrideSuffix) =
      disk.lookup (primaryFilename ++ kOverrideSuffix))
    (hprimary : disk'.lookup primaryFilename = disk.lookup primaryFilename) :
    Holds codec primaryFilename disk' value := by
  cases value with
  | none => exact ⟨hoverride.trans h.1, hprimary.trans h.2⟩
  | some m => exact h.imp hoverride.trans fun h => ⟨hoverride.trans h.1, hprimary.trans h.2⟩

/-- While there is an override file, the primary file can be deleted. -/
theorem Holds.deletePrimary {s : StoreState M} {value : Option M}
    (h : Holds codec primaryFilename s.disk value)
    (hsome : (s.disk.lookup (primaryFilename ++ kOverrideSuffix)).isSome) (outcome : Outcome) :
    Holds codec primaryFilename (deletePrimary primaryFilename outcome s).2.disk value := by
  have hoverride := (deletePrimary_spec primaryFilename outcome s).2 _
    (override_ne_primary primaryFilename)
  cases value with
  | none => exact absurd h.1 (Option.isSome_iff_ne_none.mp hsome)
  | some m =>
    rcases h with h | ⟨h, _⟩
    · exact Or.inl (hoverride.trans h)
    · exact absurd h (Option.isSome_iff_ne_none.mp hsome)

/-- The override file can be moved to the place of the primary file. -/
theorem Holds.moveOverrideToPrimary {s : StoreState M} {value : Option M}
    (h : Holds codec primaryFilename s.disk value) (outcome : Outcome) :
    Holds codec primaryFilename (moveOverrideToPrimary primaryFilename outcome
      (primaryFilename ++ kOverrideSuffix) s).2.disk value := by
  rcases moveOverrideToPrimary_spec primaryFilename outcome (primaryFilename ++ kOverrideSuffix) s
    with ⟨_, hsame⟩ | ⟨_, hsome, hlookup⟩
  · rwa [hsame]
  · cases value with
    | none => exact absurd h.1 (Option.isSome_iff_ne_none.mp hsome)
    | some m =>
      rcases h with h | ⟨h, _⟩
      · refine Or.inr ⟨?_, ?_⟩
        · rw [hlookup, if_neg (override_ne_primary _), if_pos rfl]
        · rw [hlookup, if_pos rfl, h]
      · exact absurd h (Option.isSome_iff_ne_none.mp hsome)

/-- The recovery keeps the message. -/
theorem Holds.recover {s : StoreState M} {value : Option M}
    (h : Holds codec primaryFilename s.disk value) (script : Script) :
    Holds codec primaryFilename (recover script primaryFilename s).2.disk value ∧
      (recover script primaryFilename s).2.moved = s.moved := by
  have hmoved := (deletePrimary_spec primaryFilename script.recoverDelete s).1
  rcases recover_cases script primaryFilename s with
    ⟨_, heq⟩ | ⟨hsome, ⟨_, heq⟩ | ⟨heq, _⟩⟩
  · rw [heq]
    exact ⟨h, rfl⟩
  · rw [heq]
    exact ⟨h.deletePrimary hsome _, hmoved⟩
  · rw [heq]
    exact ⟨(h.deletePrimary hsome _).moveOverrideToPrimary _,
      (moveOverrideToPrimary_moved _ _ _ _).trans hmoved⟩

/-- One write, however it goes, leaves the message of the last write whose temporary file was
moved. -/
theorem Holds.write {contents : Option Bytes → Bytes → Bytes} {initial : Option M}
    {s : StoreState M} (h : Holds codec primaryFilename s.disk (s.current initial))
    (script : Script) {m : M} (hcontents : contents (s.disk.lookup (primaryFilename ++ kTmpSuffix))
      (codec.serialize m) = codec.serialize m) :
    let s' := (write contents codec script primaryFilename m s).2
    Holds codec primaryFilename s'.disk (s'.current initial) := by
  have hcases := write_cases contents codec script primaryFilename m s
  dsimp only at hcases ⊢
  obtain ⟨h₁, hmoved₁⟩ := h.recover script
  have htmp₁ := (recover_spec script primaryFilename s).1
  -- Up to the move of the temporary file, the files that are read hold the old message.
  set s₁ := (Util.recover script primaryFilename s).2
  obtain ⟨hmoved₂, hlookup₂, htmp₂⟩ := writeToTmp_spec contents codec script m
    (primaryFilename ++ kTmpSuffix) s₁
  set s₂ := (writeToTmp contents codec script m (primaryFilename ++ kTmpSuffix) s₁).2
  have h₂ : Holds codec primaryFilename s₂.disk (s.current initial) :=
    h₁.congr (hlookup₂ _ (tmp_ne_override _).symm) (hlookup₂ _ (tmp_ne_primary _).symm)
  have hcurrent₂ : s₂.current initial = s.current initial := by
    rw [StoreState.current, hmoved₂, hmoved₁, StoreState.current]
  rcases hcases with ⟨_, heq⟩ | ⟨_, ⟨_, heq⟩ | ⟨hok₂, hcases⟩⟩
  · rw [heq, StoreState.current, hmoved₁]
    exact h₁
  · rw [heq, hcurrent₂]
    exact h₂
  rcases moveTmpToOverride_spec script m (primaryFilename ++ kTmpSuffix)
      (primaryFilename ++ kOverrideSuffix) s₂ with ⟨hfailed₃, hsame₃⟩ | ⟨hmoved₃, hlookup₃⟩
  · rcases hcases with ⟨_, heq⟩ | ⟨hok, _⟩
    · rw [heq, hsame₃, hcurrent₂]
      exact h₂
    · exact absurd hok hfailed₃
  -- From the move on, they hold the new one.
  set s₃ := (moveTmpToOverride script m (primaryFilename ++ kTmpSuffix)
    (primaryFilename ++ kOverrideSuffix) s₂).2
  have hoverride₃ : s₃.disk.lookup (primaryFilename ++ kOverrideSuffix) =
      some (codec.serialize m) := by
    rw [hlookup₃, if_pos rfl, htmp₂ hok₂, htmp₁, hcontents]
  have h₃ : Holds codec primaryFilename s₃.disk (some m) := Or.inl hoverride₃
  have h₄ := h₃.deletePrimary (by rw [hoverride₃]; rfl) script.deletePrimary
  have hmoved₄ := (deletePrimary_spec primaryFilename script.deletePrimary s₃).1
  have hcurrent (s' : StoreState M) (hmoved : s'.moved = s₃.moved) :
      s'.current initial = some m := by
    rw [StoreState.current, hmoved, hmoved₃, List.getLast?_concat, Option.some_or]
  rcases hcases with ⟨_, heq⟩ | ⟨_, ⟨_, heq⟩ | ⟨_, heq⟩⟩
  · rw [heq, hcurrent s₃ rfl]
    exact h₃
  · rw [heq, hcurrent _ hmoved₄]
    exact h₄
  · rw [heq, hcurrent _ ((moveOverrideToPrimary_moved _ _ _ _).trans hmoved₄)]
    exact h₄.moveOverrideToPrimary _

/-- After a write the files hold the message from before, or the new one. -/
theorem holds_write_cases {contents : Option Bytes → Bytes → Bytes} {disk : Disk}
    {value : Option M} (h : Holds codec primaryFilename disk value) (script : Script) (m : M)
    (hcontents : contents (disk.lookup (primaryFilename ++ kTmpSuffix)) (codec.serialize m) =
      codec.serialize m) :
    let disk' := (write contents codec script primaryFilename m { disk := disk }).2.disk
    Holds codec primaryFilename disk' value ∨ Holds codec primaryFilename disk' (some m) := by
  have hinitial : Holds codec primaryFilename disk
      (StoreState.current value { disk := disk }) := h
  have hwrite := hinitial.write script hcontents
  dsimp only at hwrite ⊢
  rw [StoreState.current] at hwrite
  rcases write_moved contents codec script primaryFilename m { disk := disk } with heq | heq
  · rw [heq] at hwrite
    exact Or.inl hwrite
  · rw [heq] at hwrite
    exact Or.inr hwrite

/-- Every call of `Write` keeps it. -/
theorem WriteStep.holds {initial : Option M} {s s' : StoreState M}
    (hstep : WriteStep codec primaryFilename s s')
    (h : Holds codec primaryFilename s.disk (s.current initial)) :
    Holds codec primaryFilename s'.disk (s'.current initial) := by
  obtain ⟨script, m, rfl⟩ := hstep
  exact h.write script rfl

/-- **Crash safety.** After any sequence of writes, whatever fails in them and wherever they are cut
short, a read returns the message of the last write whose temporary file was moved to the override
file, or the initial message if there is no such write. -/
theorem read_eq_last_moved (hcodec : codec.Lawful) {disk : Disk} {initial : Option M}
    (hinitial : Holds codec primaryFilename disk initial) {s : StoreState M}
    (hrun : Relation.ReflTransGen (WriteStep codec primaryFilename) { disk := disk } s) :
    read codec primaryFilename s.disk =
      readCell primaryFilename (s.moved.getLast?.or initial) := by
  have hholds : Holds codec primaryFilename s.disk (s.current initial) := by
    induction hrun with
    | refl => exact hinitial
    | tail _ hstep ih => exact hstep.holds ih
  exact hholds.read_eq hcodec

theorem flagCodec_lawful : flagCodec.Lawful := by
  intro flag
  cases flag <;> rfl

/-- Two writes to a store with a message. The first one cannot delete the primary file, and the
process dies in the second one after the move of the temporary file. -/
theorem read_eq_last_moved_twoWrites :
    let disk : Disk := AList.insert "store" [] ∅
    let first := write replaceContents flagCodec { deletePrimary := .fail } "store" true
      { disk := disk }
    let second := write replaceContents flagCodec { moveTmp := .crashAfter } "store" false first.2
    first.1 ≠ .ok ∧ second.1 = .crash ∧ second.2.moved = [true, false] ∧
      read flagCodec "store" second.2.disk = readCell "store" (some false) := by
  intro disk first second
  have hinitial : Holds flagCodec "store" disk (some false) := Or.inr (by decide +kernel)
  have hrun : Relation.ReflTransGen (WriteStep flagCodec "store") { disk := disk } second.2 :=
    (Relation.ReflTransGen.single ⟨{ deletePrimary := .fail }, true, rfl⟩).tail
      ⟨{ moveTmp := .crashAfter }, false, rfl⟩
  have hmoved : second.2.moved = [true, false] := by decide +kernel
  refine ⟨by decide +kernel, by decide +kernel, hmoved, ?_⟩
  rw [read_eq_last_moved flagCodec_lawful hinitial hrun, hmoved]
  rfl

end Crashes

end Cobalt.Util
