import Mathlib.Data.List.Induction
import Mathlib.Order.Nat
import Zeus.Lib.FileLock

/-! Each system call of `_acquire`, `release` and `sweep` is one atomic step on the shared file
system, taken by any process in any order; a process that dies or fails closes its descriptors. -/

namespace Zeus.ExecutionLease

open FileLock

/-- How far the call that opened a descriptor has come. -/
inductive Phase where
  | opened (sweeping : Bool)
  | locked (sweeping : Bool)
  | held | sameForSweep | swept
  deriving DecidableEq

structure Use (π : Type*) where
  path : π
  phase : Phase

inductive DescriptorCall where
  | flock | samestat | unlink
  /-- A holder passes a duplicate of its descriptor to the executing worker. -/
  | duplicate
  /-- By `release`, after an error, or as the process dies. -/
  | close
  deriving DecidableEq

inductive SystemCall (π : Type*) where
  | openForAcquire (path : π)
  | openForSweep (path : π)
  | descriptor (d : ℕ) (call : DescriptorCall)
  deriving DecidableEq

abbrev Leases (π : Type*) := Volume π (Use π)

variable {π : Type*}

def mark (s : Leases π) (d : ℕ) (file : Description (Use π)) (phase : Phase) : Leases π :=
  s.put d (some { file with note := ⟨file.note.path, phase⟩ })

section
variable [DecidableEq π]

/-- A failed `flock` (`LOCK_NB`) and an inode its path no longer names both end in a `close`. -/
def act (s : Leases π) (d : ℕ) (file : Description (Use π)) (call : DescriptorCall) : Leases π :=
  match call, file.note.phase with
  | .flock, .opened sweeping =>
    if s.lock file.inode = none then mark (s.take file.inode d) d file (.locked sweeping)
    else s.close d file
  | .samestat, .locked sweeping =>
    if s.entry file.note.path = some file.inode then
      mark s d file (if sweeping then .sameForSweep else .held)
    else s.close d file
  | .unlink, .sameForSweep => mark (s.name file.note.path none) d file .swept
  | .duplicate, .held => s.put d (some { file with copies := file.copies + 1 })
  | .close, _ => s.close d file
  | _, _ => s

def step (s : Leases π) : SystemCall π → Leases π
  | .openForAcquire path => s.openCreating path ⟨path, .opened false⟩
  | .openForSweep path => s.openExisting path ⟨path, .opened true⟩
  | .descriptor d call =>
    match s.files d with
    | none => s
    | some file => act s d file call

def run (calls : List (SystemCall π)) : Leases π := calls.foldl step Volume.empty
end

/-- A description past `flock` owns the lock of its inode. -/
def Phase.owns : Phase → Bool
  | .opened _ => false
  | _ => true

/-- A description that has compared the inodes is on the one its path names, until it unlinks the
path itself. -/
def Phase.linked : Phase → Bool
  | .held | .sameForSweep => true
  | _ => false

theorem Phase.owns_of_linked {phase : Phase} (links : phase.linked) : phase.owns := by
  cases phase with
  | opened sweeping => cases links
  | _ => rfl

structure Fenced (s : Leases π) : Prop extends Volume.Sound s where
  locked : ∀ {d file}, s.files d = some file → file.note.phase.owns → s.lock file.inode = some d
  linked : ∀ {d file}, s.files d = some file → file.note.phase.linked →
    s.entry file.note.path = some file.inode

section
variable {s : Leases π} (h : Fenced s)
include h

theorem Fenced.attach {inode : ℕ} (made : inode < s.inodes) (path : π) (sweeping : Bool) :
    Fenced (s.attach inode ⟨path, .opened sweeping⟩) := by
  refine ⟨h.toSound.attach made _, ?_, ?_⟩ <;> simp only [Volume.attach, Volume.put] <;>
    grind [Fenced, Phase.owns, Phase.linked]

variable {d e : ℕ} {file other : Description (Use π)} (found : s.files d = some file)
include found

theorem Fenced.close : Fenced (s.close d file) := by
  refine ⟨h.toSound.close found, ?_, ?_⟩ <;> unfold Volume.close <;> split <;>
    simp only [Volume.put] <;>
    grind [Fenced]

theorem Fenced.mark {phase : Phase} (locked : phase.owns → s.lock file.inode = some d)
    (linked : phase.linked → s.entry file.note.path = some file.inode) :
    Fenced (mark s d file phase) := by
  refine ⟨h.toSound.put found rfl, ?_, ?_⟩ <;> simp only [ExecutionLease.mark, Volume.put] <;>
    grind [Fenced]

theorem Fenced.take (free : s.lock file.inode = none) : Fenced (s.take file.inode d) := by
  refine ⟨h.toSound.take found, ?_, h.linked⟩
  intro e other hp owns
  have owned := h.locked hp owns
  refine (if_neg ?_).trans owned
  intro same
  rw [same, free] at owned
  cases owned

/-- Two descriptions linked at one path are one description. -/
theorem Fenced.linked_unique (hp : s.files e = some other) (same : other.note.path = file.note.path)
    (links : file.note.phase.linked) (links' : other.note.phase.linked) : e = d := by
  have inode : other.inode = file.inode :=
    Option.some.inj ((h.linked hp links').symm.trans (same ▸ h.linked found links))
  have owned := h.locked hp (Phase.owns_of_linked links')
  rw [inode, h.locked found (Phase.owns_of_linked links)] at owned
  exact (Option.some.inj owned).symm

variable [DecidableEq π]

/-- The sweeper that compared the inodes is the only description linked at the path it unlinks. -/
theorem Fenced.unlink (links : file.note.phase.linked) :
    Fenced (ExecutionLease.mark (s.name file.note.path none) d file .swept) := by
  have marked : Fenced (ExecutionLease.mark s d file .swept) :=
    h.mark found (fun _ => h.locked found (Phase.owns_of_linked links)) nofun
  refine ⟨marked.toSound.unlink file.note.path, marked.locked, ?_⟩
  intro e other hp links'
  refine (if_neg ?_).trans (marked.linked hp links')
  intro same
  simp only [ExecutionLease.mark, Volume.put] at hp
  split at hp
  · cases hp
    cases links'
  · exact absurd (h.linked_unique found hp same links links') ‹_›

theorem Fenced.act (call : DescriptorCall) : Fenced (act s d file call) := by
  unfold ExecutionLease.act
  split
  · split
    · next free => exact (h.take found free).mark found (fun _ => if_pos rfl) nofun
    · exact h.close found
  · next locked =>
    split
    · next same => exact h.mark found (fun _ => h.locked found (locked ▸ rfl)) fun _ => same
    · exact h.close found
  · next compared => exact h.unlink found (compared ▸ rfl)
  · refine ⟨h.toSound.put found rfl, ?_, ?_⟩ <;> simp only [Volume.put] <;> grind [Fenced]
  · exact h.close found
  · exact h

omit found in
theorem Fenced.step (call : SystemCall π) : Fenced (step s call) := by
  cases call with
  | openForAcquire path =>
    simp only [ExecutionLease.step, Volume.openCreating]
    split
    · next inode named => exact h.attach (h.entryMade named) path false
    · next hab =>
      apply Fenced.attach ⟨h.toSound.create path, h.locked, ?_⟩ (Nat.lt_succ_self _)
      intro d file found links
      have named := h.linked found links
      refine (if_neg ?_).trans named
      intro same
      rw [same, hab] at named
      cases named
  | openForSweep path =>
    simp only [ExecutionLease.step, Volume.openExisting]
    split
    · next inode named => exact h.attach (h.entryMade named) path true
    · exact h
  | descriptor d call =>
    simp only [ExecutionLease.step]
    split
    · exact h
    · next file found => exact h.act found call
end

variable [DecidableEq π]

theorem fenced_run (calls : List (SystemCall π)) : Fenced (run calls) := by
  induction calls using List.reverseRecOn with
  | nil => exact ⟨Volume.sound_empty, nofun, nofun⟩
  | append_singleton calls call ih =>
    rw [run, List.foldl_append]
    exact ih.step call

/-- `d` holds the lease of `path`, with at least `spare` descriptors beyond the first. -/
def Holds (s : Leases π) (d : ℕ) (path : π) (spare : ℕ) : Prop :=
  ∃ file, s.files d = some file ∧ file.note = ⟨path, .held⟩ ∧ spare ≤ file.copies

theorem act_others (s : Leases π) {d e : ℕ} (other : e ≠ d) (file : Description (Use π))
    (call : DescriptorCall) : (act s d file call).files e = s.files e := by
  unfold act Volume.close
  repeat' split
  all_goals first | rfl | exact if_neg other

theorem Holds.close {s : Leases π} {d : ℕ} {path : π} {spare : ℕ}
    (holds : Holds s d path (spare + 1)) : Holds (step s (.descriptor d .close)) d path spare := by
  obtain ⟨file, found, held, more⟩ := holds
  simp only [ExecutionLease.step, found, act, Volume.close, if_neg (Nat.ne_zero_of_lt more)]
  exact ⟨_, if_pos rfl, held, Nat.le_sub_one_of_lt more⟩

theorem Holds.step {s : Leases π} (h : Fenced s) {d : ℕ} {path : π} {spare : ℕ}
    (holds : Holds s d path spare) {call : SystemCall π} (kept : call ≠ .descriptor d .close) :
    Holds (step s call) d path spare := by
  obtain ⟨file, found, held⟩ := holds
  have older : d ≠ s.opened := (h.fileMade found).1.ne
  cases call with
  | openForAcquire path' =>
    simp only [ExecutionLease.step, Volume.openCreating]
    split <;> exact ⟨file, (if_neg older).trans found, held⟩
  | openForSweep path' =>
    simp only [ExecutionLease.step, Volume.openExisting]
    split
    · exact ⟨file, (if_neg older).trans found, held⟩
    · exact ⟨file, found, held⟩
  | descriptor e call =>
    simp only [ExecutionLease.step]
    split
    · exact ⟨file, found, held⟩
    next file' found' =>
    by_cases same : e = d
    · subst same
      cases found.symm.trans found'
      have phase : file.note.phase = .held := congrArg Use.phase held.1
      cases call with
      | close => exact absurd rfl kept
      | duplicate =>
        simp only [act, phase]
        exact ⟨_, if_pos rfl, held.1, held.2.trans (Nat.le_succ _)⟩
      | _ =>
        simp only [act, phase]
        exact ⟨file, found, held⟩
    · exact ⟨file, (act_others s (Ne.symm same) _ _).trans found, held⟩

/-- From its grant until its last descriptor closes, a lease is held through every interleaving of
the other calls, on the inode that its path names, and by no other description. -/
theorem lease_stays_exclusive (calls more : List (SystemCall π)) {d : ℕ} {path : π} {spare : ℕ}
    (hgr : Holds (run calls) d path spare) (kept : more.count (.descriptor d .close) ≤ spare) :
    Holds (run (calls ++ more)) d path (spare - more.count (.descriptor d .close)) ∧
    (∃ inode, (run (calls ++ more)).entry path = some inode ∧
        (run (calls ++ more)).lock inode = some d) ∧
    ∀ e, Holds (run (calls ++ more)) e path 0 → e = d := by
  have holds : Holds (run (calls ++ more)) d path (spare - more.count (.descriptor d .close)) := by
    induction more using List.reverseRecOn with
    | nil => rwa [List.append_nil]
    | append_singleton more call ih =>
      rw [List.count_append, List.count_singleton] at kept ⊢
      rw [← List.append_assoc, run, List.foldl_append]
      have before := ih (Nat.le_of_add_right_le kept)
      split_ifs at kept ⊢ with closes
      · rw [beq_iff_eq] at closes
        subst closes
        apply Holds.close
        rwa [← Nat.sub_sub, Nat.sub_add_cancel (Nat.le_sub_of_add_le' kept)]
      · exact before.step (fenced_run _) (closes <| beq_iff_eq.mpr ·)
  have fenced := fenced_run (calls ++ more)
  refine ⟨holds, ?_⟩
  obtain ⟨file, found, held, -⟩ := holds
  have links : file.note.phase.linked := held ▸ rfl
  constructor
  · have named := fenced.linked found links
    rw [held] at named
    exact ⟨file.inode, named, fenced.locked found (Phase.owns_of_linked links)⟩
  · rintro e ⟨other, hp, held', -⟩
    exact fenced.linked_unique found hp (by rw [held, held']) links (held' ▸ rfl)

/-- The parent's descriptor closes after the worker got its duplicate; the sweeper and the second
acquirer, which opened the path in time, find the lock taken. -/
theorem shared_lease_stays :
    Holds (run (([.openForAcquire (), .descriptor 0 .flock, .descriptor 0 .samestat,
              .descriptor 0 .duplicate] : List (SystemCall Unit)) ++
          [.openForSweep (), .openForAcquire (), .descriptor 0 .close, .descriptor 2 .flock,
            .descriptor 1 .flock, .descriptor 1 .unlink])) 0 () 0 :=
  (lease_stays_exclusive _ _ ⟨⟨0, ⟨(), .held⟩, 1⟩, rfl, rfl, le_rfl⟩ (by decide)).1

/-- `_acquire` when no other process moves between its calls. -/
def acquireAlone (s : Leases π) (path : π) : Leases π :=
  [.openForAcquire path, .descriptor s.opened .flock, .descriptor s.opened .samestat].foldl step s

theorem holds_attach_iff (s : Leases π) {path : π} {inode : ℕ} (named : s.entry path = some inode) :
    Holds ([.descriptor s.opened .flock, .descriptor s.opened .samestat].foldl step
      (s.attach inode ⟨path, .opened false⟩)) s.opened path 0 ↔ s.lock inode = none := by
  by_cases free : s.lock inode = none <;>
    simp [Holds, step, act, mark, Volume.attach, Volume.put, Volume.take, Volume.close, named, free]

/-- Left alone, `_acquire` takes the lease unless a live description owns the lock of the inode the
path names. -/
theorem acquireAlone_holds_iff (calls : List (SystemCall π)) (path : π) :
    Holds (acquireAlone (run calls) path) (run calls).opened path 0 ↔
      ¬ ∃ d file, (run calls).files d = some file ∧
          (run calls).entry path = some file.inode ∧
          (run calls).lock file.inode = some d := by
  have fenced := fenced_run calls
  generalize run calls = s at fenced ⊢
  cases named : s.entry path with
  | none =>
    have free : s.lock s.inodes = none := by
      by_contra taken
      obtain ⟨d, locked⟩ := Option.ne_none_iff_exists'.mp taken
      obtain ⟨file, found, same⟩ := fenced.owned locked
      exact (same ▸ (fenced.fileMade found).2).false
    simp only [acquireAlone, List.foldl_cons, step, Volume.openCreating, named]
    exact iff_of_true ((holds_attach_iff (s.create path) (if_pos rfl)).mpr free) (by simp)
  | some inode =>
    simp only [acquireAlone, List.foldl_cons, step, Volume.openCreating, named]
    refine (holds_attach_iff s named).trans ?_
    constructor
    · rintro free ⟨d, file, -, same, locked⟩
      rw [← Option.some.inj same, free] at locked
      cases locked
    · intro unowned
      by_contra taken
      obtain ⟨d, locked⟩ := Option.ne_none_iff_exists'.mp taken
      obtain ⟨file, found, same⟩ := fenced.owned locked
      exact unowned ⟨d, file, found, congrArg some same.symm, same ▸ locked⟩

end Zeus.ExecutionLease
