import Mathlib.Data.Nat.Notation

/-! A path names an inode; an open file description is on one inode and may be shared by several
descriptors; the exclusive lock of an inode belongs to a description and goes when the last
descriptor of it closes. -/

namespace FileLock

/-- An open file description, with its user's note and the number of descriptors beyond the
first. -/
structure Description (ν : Type*) where
  inode : ℕ
  note : ν
  copies : ℕ

structure Volume (π ν : Type*) where
  entry : π → Option ℕ
  lock : ℕ → Option ℕ
  files : ℕ → Option (Description ν)
  inodes : ℕ
  opened : ℕ

namespace Volume

variable {π ν : Type*}

def empty : Volume π ν := ⟨fun _ => none, fun _ => none, fun _ => none, 0, 0⟩

def put (v : Volume π ν) (d : ℕ) (file : Option (Description ν)) : Volume π ν :=
  { v with files := fun e => if e = d then file else v.files e }

def attach (v : Volume π ν) (inode : ℕ) (note : ν) : Volume π ν :=
  { v.put v.opened (some ⟨inode, note, 0⟩) with opened := v.opened + 1 }

def openExisting (v : Volume π ν) (path : π) (note : ν) : Volume π ν :=
  match v.entry path with
  | some inode => v.attach inode note
  | none => v

def take (v : Volume π ν) (inode d : ℕ) : Volume π ν :=
  { v with lock := fun i => if i = inode then some d else v.lock i }

/-- The last descriptor of `d` to close takes the description and its locks with it. -/
def close (v : Volume π ν) (d : ℕ) (file : Description ν) : Volume π ν :=
  if file.copies = 0 then
    { v.put d none with lock := fun i => if v.lock i = some d then none else v.lock i }
  else v.put d (some { file with copies := file.copies - 1 })

@[grind cases]
structure Sound (v : Volume π ν) : Prop where
  namedOnce : ∀ {p q inode}, v.entry p = some inode → v.entry q = some inode → p = q
  entryMade : ∀ {p inode}, v.entry p = some inode → inode < v.inodes
  fileMade : ∀ {d file}, v.files d = some file → d < v.opened ∧ file.inode < v.inodes
  owned : ∀ {inode d}, v.lock inode = some d → ∃ file, v.files d = some file ∧ file.inode = inode

theorem sound_empty : (empty : Volume π ν).Sound := by
  constructor <;> nofun

section
variable {v : Volume π ν} (h : v.Sound)
include h

theorem Sound.attach {inode : ℕ} (made : inode < v.inodes) (note : ν) :
    (v.attach inode note).Sound := by
  constructor <;> simp only [Volume.attach, Volume.put] <;> grind

theorem Sound.put {d : ℕ} {file next : Description ν} (hf : v.files d = some file)
    (same : next.inode = file.inode) : (v.put d (some next)).Sound := by
  constructor <;> simp only [Volume.put] <;> grind

theorem Sound.take {d : ℕ} {file : Description ν} (hf : v.files d = some file) :
    (v.take file.inode d).Sound := by
  constructor <;> simp only [Volume.take] <;> grind

theorem Sound.close {d : ℕ} {file : Description ν} (hf : v.files d = some file) :
    (v.close d file).Sound := by
  unfold Volume.close
  split
  · constructor <;> simp only [Volume.put] <;> grind
  · exact h.put hf rfl
end

variable [DecidableEq π]

def name (v : Volume π ν) (path : π) (inode : Option ℕ) : Volume π ν :=
  { v with entry := fun p => if p = path then inode else v.entry p }

def create (v : Volume π ν) (path : π) : Volume π ν :=
  { v.name path (some v.inodes) with inodes := v.inodes + 1 }

def openCreating (v : Volume π ν) (path : π) (note : ν) : Volume π ν :=
  match v.entry path with
  | some inode => v.attach inode note
  | none => (v.create path).attach v.inodes note

theorem Sound.create {v : Volume π ν} (h : v.Sound) (path : π) : (v.create path).Sound := by
  constructor <;> simp only [Volume.create, Volume.name] <;> grind

theorem Sound.unlink {v : Volume π ν} (h : v.Sound) (path : π) : (v.name path none).Sound := by
  constructor <;> simp only [Volume.name] <;> grind

end Volume
end FileLock
