import Mathlib.Logic.Function.Basic

/-!
# Names, inodes and locks

A name is bound to an inode, and an inode has the bytes of a file. A process opens a name and from
then on uses the inode; a rename binds a name to another inode and leaves those that have the old one
open with it. An exclusive lock belongs to an inode, not to a name.
-/

namespace Inodes

variable {ν ι β : Type}

/-- The names, the bytes of the inodes, and who holds the lock of an inode. -/
structure FileSystem (ν ι β : Type) where
  links : ν → Option Nat
  inodes : List (List β)
  holder : Nat → Option ι

namespace FileSystem

/-- Without files. -/
def empty : FileSystem ν ι β := ⟨fun _ => none, [], fun _ => none⟩

/-- The bytes of an inode. -/
def read (fs : FileSystem ν ι β) (k : Nat) : List β := fs.inodes[k]?.getD []

/-- The bytes of the file under a name. -/
def file (fs : FileSystem ν ι β) (name : ν) : Option (List β) := (fs.links name).map fs.read

/-- The bytes of an inode are replaced. -/
def write (fs : FileSystem ν ι β) (k : Nat) (text : List β) : FileSystem ν ι β :=
  { fs with inodes := fs.inodes.set k text }

/-- `write` with `O_APPEND`. -/
def append (fs : FileSystem ν ι β) (k : Nat) (text : List β) : FileSystem ν ι β :=
  fs.write k (fs.read k ++ text)

/-- `write` from the start of the file. -/
def overwrite (fs : FileSystem ν ι β) (k : Nat) (text : List β) : FileSystem ν ι β :=
  fs.write k (text ++ (fs.read k).drop text.length)

section Names

variable [DecidableEq ν]

/-- A new empty inode under a name. -/
def create (fs : FileSystem ν ι β) (name : ν) : FileSystem ν ι β :=
  { fs with
    links := Function.update fs.links name (some fs.inodes.length)
    inodes := fs.inodes ++ [[]] }

/-- `open` with `O_CREAT`. -/
def openAppend (fs : FileSystem ν ι β) (name : ν) : Nat × FileSystem ν ι β :=
  match fs.links name with
  | some k => (k, fs)
  | none => (fs.inodes.length, fs.create name)

/-- `open` with `O_CREAT` and `O_TRUNC`. -/
def openWrite (fs : FileSystem ν ι β) (name : ν) : Nat × FileSystem ν ι β :=
  match fs.links name with
  | some k => (k, fs.write k [])
  | none => (fs.inodes.length, fs.create name)

/-- `unlink`. -/
def unlink (fs : FileSystem ν ι β) (name : ν) : FileSystem ν ι β :=
  { fs with links := Function.update fs.links name none }

/-- `rename`, which fails where there is no file. -/
def rename (fs : FileSystem ν ι β) (source target : ν) : Option (FileSystem ν ι β) :=
  (fs.links source).map fun k =>
    { fs with links := Function.update (Function.update fs.links target (some k)) source none }

end Names

section Locks

variable [DecidableEq ι]

/-- `flock` with `LOCK_EX`; no result where the process has to wait. -/
def lock (fs : FileSystem ν ι β) (i : ι) (k : Nat) : Option (FileSystem ν ι β) :=
  if fs.holder k = none then some { fs with holder := Function.update fs.holder k (some i) } else none

/-- `flock` with `LOCK_UN`. -/
def unlock (fs : FileSystem ν ι β) (i : ι) (k : Nat) : FileSystem ν ι β :=
  if fs.holder k = some i then { fs with holder := Function.update fs.holder k none } else fs

end Locks

/-! ## What the calls leave -/

variable {fs : FileSystem ν ι β} {k k' : Nat} {text : List β} {name name' : ν}

theorem file_eq (h : fs.links name = some k) : fs.file name = some (fs.read k) := by
  rw [file, h, Option.map_some]

theorem read_write_self (h : k < fs.inodes.length) : (fs.write k text).read k = text := by
  unfold read write
  rw [List.getElem?_set_self h, Option.getD_some]

theorem read_write_of_ne (h : k ≠ k') : (fs.write k text).read k' = fs.read k' := by
  unfold read write
  rw [List.getElem?_set_ne h]

theorem length_write : (fs.write k text).inodes.length = fs.inodes.length := List.length_set

section Names

variable [DecidableEq ν]

theorem links_create_self : (fs.create name).links name = some fs.inodes.length :=
  Function.update_self ..

theorem links_create_of_ne (h : name' ≠ name) : (fs.create name).links name' = fs.links name' :=
  Function.update_of_ne h ..

theorem read_create_of_lt (h : k < fs.inodes.length) : (fs.create name).read k = fs.read k := by
  unfold read create
  rw [List.getElem?_append_left h]

theorem read_create_new : (fs.create name).read fs.inodes.length = [] := by
  unfold read create
  rw [List.getElem?_concat_length]
  rfl

theorem length_create : (fs.create name).inodes.length = fs.inodes.length + 1 :=
  List.length_append

theorem openAppend_of_some (h : fs.links name = some k) : fs.openAppend name = (k, fs) := by
  unfold openAppend
  rw [h]

theorem openAppend_of_none (h : fs.links name = none) :
    fs.openAppend name = (fs.inodes.length, fs.create name) := by
  unfold openAppend
  rw [h]

theorem openWrite_of_none (h : fs.links name = none) :
    fs.openWrite name = (fs.inodes.length, fs.create name) := by
  unfold openWrite
  rw [h]

theorem links_unlink_self : (fs.unlink name).links name = none := Function.update_self ..

theorem links_unlink_of_ne (h : name' ≠ name) : (fs.unlink name).links name' = fs.links name' :=
  Function.update_of_ne h ..

/-- After a rename the target is bound to the inode, and the source to none. -/
theorem rename_eq (h : fs.links name = some k) (hne : name' ≠ name) :
    ∃ fs', fs.rename name name' = some fs' ∧ fs'.links name' = some k ∧ fs'.links name = none ∧
      fs'.inodes = fs.inodes := by
  unfold rename
  rw [h]
  refine ⟨_, rfl, ?_, Function.update_self .., rfl⟩
  show Function.update (Function.update fs.links name' (some k)) name none name' = some k
  rw [Function.update_of_ne hne, Function.update_self]

end Names

end FileSystem

end Inodes
