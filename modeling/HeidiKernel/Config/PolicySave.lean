import HeidiKernel.Config.PolicyStore
import HeidiKernel.Data.Disk
import HeidiKernel.Transition.Machine

namespace HeidiKernel.Daemon

open Function (update)
open HeidiKernel.Data
open HeidiKernel.Transition

/-! `save`, call by call, on a disk that can lose power between any two of
them. The text goes to a file aside, which is synced and then takes the place
of the policy file. -/

/-- What `save` has done so far. The writer still holds what the stream has not
handed over. -/
inductive SaveStage
  | called
  | writing (rest : Bytes)
  | closed
  | synced
  deriving DecidableEq, Repr

structure Saver where
  disk : Disk Bytes UInt8
  saving : Option (GovernorPolicy × SaveStage) := none

inductive SaveMove
  | save (policy : GovernorPolicy)
  | open (succeeds : Bool)
  | write (count : Nat)
  | close
  | fsync (succeeds : Bool)
  | rename (succeeds : Bool)
  | crash (survivors : Survivors UInt8)

inductive SaveEvent
  | installed (policy : GovernorPolicy)
  | thrown (error : SaveError)
  | crashed
  deriving DecidableEq

namespace PolicyStore

variable (store : PolicyStore) (printDouble : Double → Bytes)

def saveStep (s : Saver) (move : SaveMove) : Traced SaveEvent Saver :=
  match move, s.saving with
  | .save policy, none => pure { s with saving := some (policy, .called) }
  | .open succeeds, some (policy, .called) =>
      if succeeds then
        pure {
          disk := s.disk.truncate store.tempPath
          saving := some (policy, .writing (policyText printDouble policy)) }
      else do
        Traced.log (.thrown .notOpened)
        pure { s with saving := none }
  | .write count, some (policy, .writing rest) =>
      pure {
        disk := s.disk.append store.tempPath (rest.take count)
        saving := some (policy, .writing (rest.drop count)) }
  -- Nobody looks at the state of the stream when it is closed.
  | .close, some (policy, .writing _) =>
      pure { s with saving := some (policy, .closed) }
  | .fsync succeeds, some (policy, .closed) =>
      pure {
        disk := if succeeds then s.disk.sync store.tempPath else s.disk
        saving := some (policy, .synced) }
  | .rename succeeds, some (policy, .synced) =>
      if succeeds then do
        Traced.log (.installed policy)
        pure {
          disk := s.disk.rename store.tempPath store.path
          saving := none }
      else do
        Traced.log (.thrown .notRenamed)
        pure { s with saving := none }
  | .crash survivors, _ => do
      Traced.log .crashed
      pure { disk := s.disk.crash survivors, saving := none }
  | _, _ => pure s

def saveMachine : Machine Saver SaveMove SaveEvent where
  step := store.saveStep printDouble

/-- The stream hands over everything before it is closed, and the sync
succeeds. -/
def Careful (s : Saver) : SaveMove → Prop
  | .close => ∀ policy rest, s.saving = some (policy, .writing rest) → rest = []
  | .fsync succeeds => succeeds = true
  | _ => True

/-- The policy saved last, if there was no crash after it. -/
def lastInstalled (events : List SaveEvent) : Option GovernorPolicy :=
  events.foldl (fun last event =>
    match event with
    | .installed policy => some policy
    | .crashed => none
    | .thrown _ => last) none

/-- What the policy file can hold: what it held at first, or the text of a
policy that was saved. -/
def Whole (initial : Option Bytes) (events : List SaveEvent)
    (content : Option Bytes) : Prop :=
  content = initial ∨ ∃ policy, .installed policy ∈ events ∧
    content = some (policyText printDouble policy)

/-- The file aside at each stage of a save. -/
def Aside (disk : Disk Bytes UInt8) :
    Option (GovernorPolicy × SaveStage) → Prop
  | none | some (_, .called) => True
  | some (policy, .writing rest) =>
      ∃ written, disk.view store.tempPath = some written ∧
        written ++ rest = policyText printDouble policy
  | some (policy, .closed) =>
      disk.view store.tempPath = some (policyText printDouble policy)
  | some (policy, .synced) =>
      disk.view store.tempPath = some (policyText printDouble policy) ∧
        ∀ i, disk.names.inode? store.tempPath = some i →
          (disk.inodes i).synced

structure Saves (initial : Option Bytes) (s : Saver)
    (history : List SaveEvent) : Prop where
  guards : s.disk.Guards store.path store.tempPath
    (Whole printDouble initial history)
  aside : store.Aside printDouble s.disk s.saving
  latest : ∀ policy, lastInstalled history = some policy →
    s.disk.view store.path = some (policyText printDouble policy)

theorem lastInstalled_concat (events : List SaveEvent) (event : SaveEvent) :
    lastInstalled (events ++ [event]) =
      match event with
      | .installed policy => some policy
      | .crashed => none
      | .thrown _ => lastInstalled events := by
  rw [lastInstalled, List.foldl_concat]
  rfl

namespace Saves

variable {store printDouble} {initial : Option Bytes}
  {disk : Disk Bytes UInt8} {history : List SaveEvent}
  {policy : GovernorPolicy} {rest : Bytes}

/-- A change of the file aside leaves the policy file alone. -/
theorem rewrite {saving saving' : Option (GovernorPolicy × SaveStage)}
    {disk' : Disk Bytes UInt8} {content : Option Bytes}
    (h : Saves store printDouble initial ⟨disk, saving⟩ history)
    (hguards : disk'.Guards store.path store.tempPath
      (Whole printDouble initial history))
    (hview : disk'.view = update disk.view store.tempPath content)
    (haside : store.Aside printDouble disk' saving') :
    Saves store printDouble initial ⟨disk', saving'⟩ history := by
  refine ⟨hguards, haside, ?_⟩
  intro policy hlast
  rw [hview, Function.update_of_ne store.tempPath_ne]
  exact h.latest policy hlast

theorem opened
    (h : Saves store printDouble initial ⟨disk, some (policy, .called)⟩
      history) :
    Saves store printDouble initial ⟨disk.truncate store.tempPath,
      some (policy, .writing (policyText printDouble policy))⟩ history := by
  have hview := disk.view_truncate store.tempPath
  apply h.rewrite (h.guards.truncate store.tempPath_ne) hview
  exact ⟨[], by rw [hview, Function.update_self], rfl⟩

theorem written
    (h : Saves store printDouble initial ⟨disk, some (policy, .writing rest)⟩
      history) (count : Nat) :
    Saves store printDouble initial
      ⟨disk.append store.tempPath (rest.take count),
        some (policy, .writing (rest.drop count))⟩ history := by
  have hview := disk.view_append store.tempPath (rest.take count)
  obtain ⟨written, htemp, htext⟩ := h.aside
  apply h.rewrite (h.guards.append _) hview
  refine ⟨written ++ rest.take count, ?_, ?_⟩
  · rw [hview, Function.update_self, htemp]
    rfl
  · rw [List.append_assoc, List.take_append_drop, htext]

theorem closed
    (h : Saves store printDouble initial ⟨disk, some (policy, .writing [])⟩
      history) :
    Saves store printDouble initial ⟨disk, some (policy, .closed)⟩
      history := by
  obtain ⟨written, htemp, htext⟩ := h.aside
  refine ⟨h.guards, ?_, h.latest⟩
  rw [List.append_nil] at htext
  rw [Aside, htemp, htext]

theorem synced
    (h : Saves store printDouble initial ⟨disk, some (policy, .closed)⟩
      history) :
    Saves store printDouble initial
      ⟨disk.sync store.tempPath, some (policy, .synced)⟩ history := by
  have hview : (disk.sync store.tempPath).view =
      update disk.view store.tempPath (disk.view store.tempPath) := by
    rw [Disk.view_sync, Function.update_eq_self]
  apply h.rewrite h.guards.sync hview
  refine ⟨?_, ?_⟩
  · rw [Disk.view_sync]
    exact h.aside
  · intro i htemp
    exact Disk.synced_sync htemp

theorem whole_append {content : Option Bytes} (event : SaveEvent)
    (h : Whole printDouble initial history content) :
    Whole printDouble initial (history ++ [event]) content := by
  rcases h with hinitial | ⟨policy, hmem, htext⟩
  · exact .inl hinitial
  · exact .inr ⟨policy, List.mem_append_left _ hmem, htext⟩

theorem renamed
    (h : Saves store printDouble initial ⟨disk, some (policy, .synced)⟩
      history) :
    Saves store printDouble initial
      ⟨disk.rename store.tempPath store.path, none⟩
      (history ++ [.installed policy]) := by
  obtain ⟨htemp, hsynced⟩ := h.aside
  have hguards := h.guards.mono fun _ => whole_append (.installed policy)
  have hgood : Whole printDouble initial (history ++ [.installed policy])
      (disk.view store.tempPath) :=
    .inr ⟨policy, List.mem_append_right _ (List.mem_singleton_self _), htemp⟩
  refine ⟨hguards.rename store.tempPath_ne hgood hsynced, trivial, ?_⟩
  intro last hlast
  rw [lastInstalled_concat] at hlast
  obtain rfl : policy = last := Option.some.inj hlast
  rw [Disk.view_rename, htemp, if_pos (Option.isSome_some),
    Function.update_self]

theorem thrown {saving : Option (GovernorPolicy × SaveStage)}
    (h : Saves store printDouble initial ⟨disk, saving⟩ history)
    (error : SaveError) :
    Saves store printDouble initial ⟨disk, none⟩
      (history ++ [.thrown error]) := by
  refine ⟨h.guards.mono fun _ => whole_append _, trivial, ?_⟩
  intro policy hlast
  rw [lastInstalled_concat] at hlast
  exact h.latest policy hlast

theorem crashed {saving : Option (GovernorPolicy × SaveStage)}
    (h : Saves store printDouble initial ⟨disk, saving⟩ history)
    (survivors : Survivors UInt8) :
    Saves store printDouble initial ⟨disk.crash survivors, none⟩
      (history ++ [.crashed]) := by
  have hguards := h.guards.mono fun _ => whole_append .crashed
  refine ⟨hguards.crash store.tempPath_ne survivors, trivial, ?_⟩
  intro policy hlast
  rw [lastInstalled_concat] at hlast
  contradiction

theorem step {s : Saver} (h : Saves store printDouble initial s history)
    {move : SaveMove} (hcareful : Careful s move) :
    Saves store printDouble initial (store.saveStep printDouble s move).value
      (history ++ (store.saveStep printDouble s move).events) := by
  have hidle : Saves store printDouble initial s (history ++ []) := by
    rwa [List.append_nil]
  obtain ⟨disk, saving⟩ := s
  cases move with
  | save policy =>
      cases saving with
      | none => exact ⟨hidle.guards, trivial, hidle.latest⟩
      | some saving => exact hidle
  | «open» succeeds =>
      rcases saving with _ | ⟨policy, _ | _ | _ | _⟩
      case some.called =>
        cases succeeds with
        | true => exact hidle.opened
        | false => exact h.thrown .notOpened
      all_goals exact hidle
  | write count =>
      rcases saving with _ | ⟨policy, _ | rest | _ | _⟩
      case some.writing => exact hidle.written count
      all_goals exact hidle
  | close =>
      rcases saving with _ | ⟨policy, _ | rest | _ | _⟩
      case some.writing =>
        obtain rfl : rest = [] := hcareful policy rest rfl
        exact hidle.closed
      all_goals exact hidle
  | fsync succeeds =>
      rcases saving with _ | ⟨policy, _ | _ | _ | _⟩
      case some.closed =>
        obtain rfl : succeeds = true := hcareful
        exact hidle.synced
      all_goals exact hidle
  | rename succeeds =>
      rcases saving with _ | ⟨policy, _ | _ | _ | _⟩
      case some.synced =>
        cases succeeds with
        | true => exact h.renamed
        | false => exact h.thrown .notRenamed
      all_goals exact hidle
  | crash survivors => exact h.crashed survivors

theorem init (hsettled : disk.Settled) :
    Saves store printDouble (disk.view store.path) ⟨disk, none⟩ [] :=
  ⟨(hsettled.guards store.tempPath_ne).mono fun _ => .inl, trivial,
    fun _ hlast => by cases hlast⟩

theorem run (hsettled : disk.Settled) {moves : List SaveMove}
    (hcareful : (store.saveMachine printDouble).Along Careful ⟨disk, none⟩
      moves) :
    let saved := (store.saveMachine printDouble).run ⟨disk, none⟩ moves
    Saves store printDouble (disk.view store.path) saved.value
      saved.events :=
  Machine.history_along (m := store.saveMachine printDouble)
    (I := Saves store printDouble (disk.view store.path))
    (fun _ _ _ hI hcareful => hI.step hcareful) (init hsettled) hcareful

end Saves

/-- Whatever calls fail and wherever the power is lost, the policy file holds
what it held at first or the whole text of a policy that was saved, and that of
the last one unless there was a crash since. -/
theorem policyFile_whole {disk : Disk Bytes UInt8} (hsettled : disk.Settled)
    {moves : List SaveMove}
    (hcareful : (store.saveMachine printDouble).Along Careful ⟨disk, none⟩
      moves) :
    let saved := (store.saveMachine printDouble).run ⟨disk, none⟩ moves
    Whole printDouble (disk.view store.path) saved.events
        (saved.value.disk.view store.path) ∧
      ∀ policy, lastInstalled saved.events = some policy →
        saved.value.disk.view store.path =
          some (policyText printDouble policy) := by
  intro saved
  have hsaves : Saves store printDouble _ _ _ := .run hsettled hcareful
  exact ⟨hsaves.guards.view, hsaves.latest⟩

/-! What `load` makes of the file after a crash. -/

/-- A policy as it is read back: its watermarks are what their printed texts
denote. -/
def reread (policy : GovernorPolicy) (cpuPct memPct : Double) :
    GovernorPolicy :=
  { policy with
    cpuHighWatermarkPct := cpuPct
    memHighWatermarkPct := memPct }

theorem load_policyText {printDouble : Double → Bytes}
    {policy : GovernorPolicy} {cpuPct memPct : Double}
    (h : Storable printDouble policy cpuPct memPct)
    {dir : Directory Bytes UInt8}
    (hfile : dir.lookup store.path = some (policyText printDouble policy)) :
    store.load dir = .ok (reread policy cpuPct memPct) := by
  simp only [load, hfile]
  rw [commaTokens_policyText h, foldlM_tokensOf h, ok_bind,
    checkRanges_storable h]
  rfl

/-- Started on a disk without a policy file, the daemon always finds the
defaults or a policy that was saved, and never a file it cannot read. -/
theorem load_recovers {disk : Disk Bytes UInt8} (hsettled : disk.Settled)
    (habsent : disk.view store.path = none) {moves : List SaveMove}
    (hcareful : (store.saveMachine printDouble).Along Careful ⟨disk, none⟩
      moves)
    (hstorable : ∀ policy, .installed policy ∈
        ((store.saveMachine printDouble).run ⟨disk, none⟩ moves).events →
      ∃ cpuPct memPct, Storable printDouble policy cpuPct memPct)
    {dir : Directory Bytes UInt8}
    (hdir : ((store.saveMachine printDouble).run ⟨disk, none⟩
      moves).value.disk.view = dir.lookup) :
    store.load dir = .ok {} ∨ ∃ policy cpuPct memPct,
      .installed policy ∈
          ((store.saveMachine printDouble).run ⟨disk, none⟩ moves).events ∧
        Storable printDouble policy cpuPct memPct ∧
        store.load dir = .ok (reread policy cpuPct memPct) := by
  have hsaves : Saves store printDouble _ _ _ := .run hsettled hcareful
  have hwhole := hsaves.guards.view
  rw [hdir, habsent] at hwhole
  rcases hwhole with hnone | ⟨policy, hmem, htext⟩
  · left
    simp only [load, hnone]
    rfl
  · right
    obtain ⟨cpuPct, memPct, h⟩ := hstorable policy hmem
    exact ⟨policy, cpuPct, memPct, hmem, h, store.load_policyText h htext⟩

/-! Without a crash the calls do what `save` does, if the stream hands over the
whole text. -/

/-- The calls of one save. The text is handed over in pieces. -/
def saveMoves (answers : SaveAnswers) (fsynced : Bool) (counts : List Nat)
    (policy : GovernorPolicy) : List SaveMove :=
  .save policy :: .open answers.opened :: counts.map .write ++
    [.close, .fsync fsynced, .rename answers.renamed]

section Uninterrupted

variable (policy : GovernorPolicy)

theorem idle_writes (counts : List Nat) {disk : Disk Bytes UInt8} :
    ((store.saveMachine printDouble).run ⟨disk, none⟩
      (counts.map .write)).value = ⟨disk, none⟩ := by
  induction counts with
  | nil => rfl
  | cons count counts ih => exact ih

theorem run_writes (counts : List Nat) {disk : Disk Bytes UInt8}
    {written : Bytes} (rest : Bytes)
    (htemp : disk.view store.tempPath = some written) :
    ∃ disk', ((store.saveMachine printDouble).run
        ⟨disk, some (policy, .writing rest)⟩ (counts.map .write)).value =
          ⟨disk', some (policy, .writing (rest.drop counts.sum))⟩ ∧
      disk'.view = update disk.view store.tempPath
        (some (written ++ rest.take counts.sum)) := by
  induction counts generalizing disk written rest with
  | nil =>
      refine ⟨disk, rfl, ?_⟩
      rw [List.sum_nil, List.take_zero, List.append_nil, ← htemp,
        Function.update_eq_self]
  | cons count counts ih =>
      have hview := disk.view_append store.tempPath (rest.take count)
      have hnext : (disk.append store.tempPath (rest.take count)).view
          store.tempPath = some (written ++ rest.take count) := by
        rw [hview, Function.update_self, htemp]
        rfl
      obtain ⟨disk', hrun, hview'⟩ := ih (rest.drop count) hnext
      refine ⟨disk', ?_, ?_⟩
      · rw [List.sum_cons, ← List.drop_drop]
        exact hrun
      · rw [hview', hview, Function.update_idem, List.sum_cons,
          List.append_assoc, List.take_add]

/-- The file aside once the text is handed over, whatever its pieces. -/
theorem run_opened (counts : List Nat) (disk : Disk Bytes UInt8) :
    ∃ disk', ((store.saveMachine printDouble).run ⟨disk, none⟩
        (.save policy :: .open true :: counts.map .write)).value =
          ⟨disk', some (policy, .writing
            ((policyText printDouble policy).drop counts.sum))⟩ ∧
      disk'.view = update disk.view store.tempPath
        (some ((policyText printDouble policy).take counts.sum)) := by
  have hview := disk.view_truncate store.tempPath
  have htemp : (disk.truncate store.tempPath).view store.tempPath =
      some [] := by
    rw [hview, Function.update_self]
  obtain ⟨disk', hrun, hview'⟩ := run_writes store printDouble policy
    counts (policyText printDouble policy) htemp
  refine ⟨disk', hrun, ?_⟩
  rw [hview', hview, Function.update_idem, List.nil_append]

theorem view_saveMoves (answers : SaveAnswers) (fsynced : Bool)
    (counts : List Nat) (disk : Disk Bytes UInt8) :
    let text := (policyText printDouble policy).take counts.sum
    ((store.saveMachine printDouble).run ⟨disk, none⟩
        (saveMoves answers fsynced counts policy)).value.disk.view =
      if !answers.opened then disk.view
      else if !answers.renamed then
        update disk.view store.tempPath (some text)
      else
        update (update disk.view store.tempPath none) store.path
          (some text) := by
  intro text
  rw [saveMoves, Machine.value_run_append]
  obtain ⟨opened, renamed⟩ := answers
  cases opened with
  | false =>
      have hidle : ((store.saveMachine printDouble).run ⟨disk, none⟩
          (.save policy :: .open false :: counts.map .write)).value =
            ⟨disk, none⟩ := idle_writes store printDouble counts
      rw [hidle]
      rfl
  | true =>
      obtain ⟨disk', hrun, hview⟩ := run_opened store printDouble policy
        counts disk
      rw [hrun]
      have hsynced : (if fsynced then disk'.sync store.tempPath
          else disk').view = disk'.view := by
        cases fsynced with
        | true => exact Disk.view_sync _ _
        | false => rfl
      cases renamed with
      | false => exact hsynced.trans hview
      | true =>
          have htemp : disk'.view store.tempPath = some text := by
            rw [hview, Function.update_self]
          refine (Disk.view_rename (if fsynced then
            disk'.sync store.tempPath else disk')).trans ?_
          rw [hsynced, htemp, if_pos Option.isSome_some, hview,
            Function.update_idem]
          rfl

/-- The calls refine `save` if the whole text is handed over. -/
theorem save_refined (answers : SaveAnswers) (fsynced : Bool)
    {counts : List Nat}
    (hall : (policyText printDouble policy).length ≤ counts.sum)
    {disk : Disk Bytes UInt8} {dir : Directory Bytes UInt8}
    (hdir : disk.view = dir.lookup) :
    ((store.saveMachine printDouble).run ⟨disk, none⟩
        (saveMoves answers fsynced counts policy)).value.disk.view =
      (store.save printDouble answers policy dir).2.lookup := by
  rw [view_saveMoves, List.take_of_length_le hall, hdir]
  have hempty : (dir.remove store.tempPath).content store.tempPath = [] := by
    rw [Directory.content, Directory.lookup_remove_self]
    rfl
  have hwritten : ((dir.remove store.tempPath).write store.tempPath
      (policyText printDouble policy)).lookup =
        update dir.lookup store.tempPath
          (some (policyText printDouble policy)) := by
    funext other
    rcases eq_or_ne other store.tempPath with rfl | hne
    · rw [Directory.lookup_write_self, hempty, Function.update_self]
      rfl
    · rw [Directory.lookup_write_ne _ hne, Directory.lookup_remove_ne _ hne,
        Function.update_of_ne hne]
  unfold save
  cases answers.opened with
  | false => rfl
  | true =>
      cases answers.renamed with
      | false => exact hwritten.symm
      | true =>
          funext other
          change _ = (Directory.rename store.tempPath store.path _).lookup other
          simp only [Bool.not_true, Bool.false_eq_true, if_false]
          rcases eq_or_ne other store.path with rfl | hpath
          · rw [Directory.lookup_rename_target, congrFun hwritten,
              Function.update_self, Function.update_self, Option.some_or]
          · rw [Function.update_of_ne hpath]
            rcases eq_or_ne other store.tempPath with rfl | htemp
            · rw [Directory.lookup_rename_source _ store.tempPath_ne.symm,
                Function.update_self]
            · rw [Directory.lookup_rename_ne _ htemp hpath,
                congrFun hwritten, Function.update_of_ne htemp,
                Function.update_of_ne htemp]

/-- A save that reports no error has stored the policy exactly if the stream
handed the whole text over: nothing notices a short write. -/
theorem installed_whole_iff (fsynced : Bool) (counts : List Nat)
    (disk : Disk Bytes UInt8) :
    ((store.saveMachine printDouble).run ⟨disk, none⟩
        (saveMoves {} fsynced counts policy)).value.disk.view store.path =
          some (policyText printDouble policy) ↔
      (policyText printDouble policy).length ≤ counts.sum := by
  rw [view_saveMoves]
  simp only [Bool.not_true, Bool.false_eq_true, if_false, Function.update_self,
    Option.some.injEq, List.take_eq_self_iff]

theorem careful_saveMoves (answers : SaveAnswers) {counts : List Nat}
    (hall : (policyText printDouble policy).length ≤ counts.sum)
    (disk : Disk Bytes UInt8) :
    (store.saveMachine printDouble).Along Careful ⟨disk, none⟩
      (saveMoves answers true counts policy) := by
  rw [saveMoves, Machine.along_append]
  have hwrites : ∀ (counts : List Nat) (s : Saver),
      (store.saveMachine printDouble).Along Careful s
        (counts.map .write) := by
    intro counts
    induction counts with
    | nil => exact fun _ => trivial
    | cons count counts ih => exact fun s => ⟨trivial, ih _⟩
  refine ⟨⟨trivial, trivial, hwrites counts _⟩, ?_, rfl, trivial, trivial⟩
  obtain ⟨opened, renamed⟩ := answers
  cases opened with
  | false =>
      have hidle : ((store.saveMachine printDouble).run ⟨disk, none⟩
          (.save policy :: .open false :: counts.map .write)).value =
            ⟨disk, none⟩ := idle_writes store printDouble counts
      rw [hidle]
      rintro policy rest ⟨⟩
  | true =>
      obtain ⟨disk', hrun, _⟩ := run_opened store printDouble policy
        counts disk
      rw [hrun]
      rintro _ _ ⟨⟩
      exact List.drop_eq_nil_of_le hall

end Uninterrupted

/-! A first save of the defaults, and a crash that brings back the directory as
it was before the rename. -/

def firstSave : List SaveMove :=
  saveMoves {} true [(policyText Double.print {}).length] {}

theorem careful_firstSave (store : PolicyStore) :
    (store.saveMachine Double.print).Along Careful ⟨.empty, none⟩ firstSave :=
  careful_saveMoves store Double.print {} {} (by simp) .empty

theorem policyFile_whole_crashed :
    let saved := ((⟨bytes "policy.json"⟩ : PolicyStore).saveMachine
      Double.print).run ⟨.empty, none⟩ (firstSave ++ [.crash ⟨1, fun _ => []⟩])
    Whole Double.print none saved.events
        (saved.value.disk.view (bytes "policy.json")) ∧
      ∀ policy, lastInstalled saved.events = some policy →
        saved.value.disk.view (bytes "policy.json") =
          some (policyText Double.print policy) :=
  policyFile_whole ⟨bytes "policy.json"⟩ Double.print Disk.settled_empty
    (Machine.along_concat.mpr ⟨careful_firstSave _, trivial⟩)

theorem load_recovers_default :
    let store : PolicyStore := ⟨bytes "policy.json"⟩
    let dir := (store.save Double.print {} {} ∅).2
    store.load dir = .ok {} ∨ ∃ policy cpuPct memPct,
      .installed policy ∈ ((store.saveMachine Double.print).run
          ⟨.empty, none⟩ firstSave).events ∧
        Storable Double.print policy cpuPct memPct ∧
        store.load dir = .ok (reread policy cpuPct memPct) := by
  apply load_recovers _ _ Disk.settled_empty rfl (careful_firstSave _)
  · intro policy hmem
    have hevents : ((PolicyStore.mk (bytes "policy.json")).saveMachine
        Double.print |>.run ⟨.empty, none⟩ firstSave).events =
          [.installed {}] := rfl
    rw [hevents, List.mem_singleton, SaveEvent.installed.injEq] at hmem
    subst hmem
    exact ⟨_, _, default_storable⟩
  · exact save_refined _ _ {} {} true (by simp) rfl

end PolicyStore

end HeidiKernel.Daemon
