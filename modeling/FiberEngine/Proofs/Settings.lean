/-
FiberEngine.Proofs.Settings — who changes the tunables.

The settings of a process are its tunables, and how far the default size of stacks has
been bound to one of them. To give a process other settings is a veil, so that every
request which does the same under it also leaves the settings as they are
(`settings_of_veiled`). That is all but the requests on tunables themselves and the
creation of a fiber with the default size. What a step does to the settings is therefore
what the operation does that it begins (`step_settings`).
-/
import FiberEngine.Proofs.Runs
import FiberEngine.Proofs.Veils

namespace FiberEngine

/-- The tunables, and how far the default size of stacks has been bound to one. -/
structure Settings where
  registry : Config.Registry
  defaultSize : DefaultSize

/-- The veil of other settings. -/
def Settings.veil (s : Settings) : Veil where
  cover p := { p with registry := s.registry, defaultSize := s.defaultSize }
  nextId _ := rfl
  live _ := rfl
  hook _ := rfl
  level _ := rfl
  program _ := rfl
  halted _ := rfl
  setNextId _ _ := rfl
  setLive _ _ := rfl
  setHook _ _ := rfl
  setProgram _ _ := rfl
  setHalted _ _ := rfl
  write _ _ := rfl
  forget _ _ := rfl

/-- The veil under which only the default size is bound otherwise. -/
def DefaultSize.veil (d : DefaultSize) : Veil where
  cover p := { p with defaultSize := d }
  nextId _ := rfl
  live _ := rfl
  hook _ := rfl
  level _ := rfl
  program _ := rfl
  halted _ := rfl
  setNextId _ _ := rfl
  setLive _ _ := rfl
  setHook _ _ := rfl
  setProgram _ _ := rfl
  setHalted _ _ := rfl
  write _ _ := rfl
  forget _ _ := rfl

namespace World

/-! ## 1. What keeps the settings -/

def settings (w : World) : Settings :=
  ⟨w.process.registry, w.process.defaultSize⟩

@[simp]
theorem settings_on (s : Settings) (w : World) : (s.veil.on w).settings = s :=
  rfl

/-- Under the settings that there are, a world is as it is. So what does the same under
any settings leaves them as they are. -/
theorem settings_of_veiled {w v : World} (same : v = w.settings.veil.on v) :
    v.settings = w.settings :=
  (congrArg settings same).trans (settings_on ..)

variable (w : World)

@[simp] theorem settings_emit (e : Event) : (w.emit e).settings = w.settings :=
  settings_of_veiled (emit_veiled w.settings.veil w e)

@[simp] theorem settings_log (n : Notice) : (w.log n).settings = w.settings :=
  settings_of_veiled (log_veiled w.settings.veil w n)

@[simp] theorem settings_report (text : String) : (w.report text).1.settings = w.settings :=
  settings_of_veiled (congrArg Prod.fst (report_veiled w.settings.veil w text))

@[simp] theorem settings_release (ids : List FiberId) : (w.release ids).settings = w.settings :=
  settings_of_veiled (release_veiled w.settings.veil w ids)

@[simp] theorem settings_dropCallback (tag : Option String) (keep : List FiberId) :
    (w.dropCallback tag keep).settings = w.settings :=
  settings_of_veiled (dropCallback_veiled w.settings.veil w tag keep)

@[simp] theorem settings_currentFiber : w.currentFiber.1.settings = w.settings :=
  settings_of_veiled (congrArg Prod.fst (currentFiber_veiled w.settings.veil w))

@[simp] theorem settings_fetch (f : FiberRef) : (w.fetch f).1.settings = w.settings :=
  settings_of_veiled (congrArg Prod.fst (fetch_veiled w.settings.veil w f))

@[simp] theorem settings_holdAll (fs : List FiberRef) : (w.holdAll fs).1.settings = w.settings :=
  settings_of_veiled (congrArg Prod.fst (holdAll_veiled w.settings.veil w fs))

@[simp] theorem settings_putSlot (name : SlotName) (id : FiberId) :
    (w.putSlot name id).settings = w.settings :=
  settings_of_veiled (putSlot_veiled w.settings.veil w name id)

@[simp] theorem settings_releaseSlots : w.releaseSlots.settings = w.settings :=
  settings_of_veiled (releaseSlots_veiled w.settings.veil w)

@[simp] theorem settings_retire : w.retire.settings = w.settings :=
  settings_of_veiled (retire_veiled w.settings.veil w)

theorem settings_entryOn (f : Fiber) (size : Nat) (shape : EntryShape) (result : Option Datum) :
    (w.entryOn f size shape result).1.settings = w.settings :=
  settings_of_veiled (congrArg Prod.fst (entryOn_veiled w.settings.veil w f size shape result))

theorem settings_letGo (id : FiberId) (x : World × Outcome) :
    (letGo id x).1.settings = x.1.settings := by
  obtain ⟨v, o⟩ := x
  cases o <;> simp [letGo]

/-- What becomes of an outcome does not touch the settings. -/
theorem settings_settle (name : String) (x : World × Outcome) :
    (settle name x).1.settings = x.1.settings :=
  settings_of_veiled (w := x.1) (congrArg Prod.fst (settle_veiled x.1.settings.veil name x))

/-- Printed pieces may show tunables, but change none. -/
theorem settings_lineText (line : List Piece) : (w.lineText line).1.settings = w.settings := by
  have pieces : ∀ (w : World) (piece : Piece), (w.pieceText piece).1.settings = w.settings := by
    intro w piece
    have ofFiber : ∀ (f : FiberRef) (text : Fiber → String),
        (w.pieceOf f text).1.settings = w.settings := by
      intro f text
      have fetched := w.settings_fetch f
      unfold pieceOf
      split <;> simp_all
    cases piece with
    | id f | state f | stackSize f | refusal f => exact ofFiber f _
    | _ => rfl
  induction line generalizing w with
  | nil => rfl
  | cons piece rest ih => exact (ih _).trans (pieces w piece)

/-! ## 2. Creating fibers -/

/-- Create a task fiber with a stack of this size: the size is checked, the allocator is
asked for it, and it is logged. -/
def createSized (w : World) (a : Allocator) (size : Nat) (cb : Callback) :
    World × Except Refusal FiberId :=
  match w.allocateStack a size with
  | (w, .error e) => (w.dropCallback cb.tag cb.keep, .error (.error e))
  | (w, .ok b) =>
    let (w, id) := w.insertTask a b size cb
    (w, .ok id)

variable {w} in
theorem createTask_of_size {asked size : Nat} {v : World} (sized : w.stackSize asked = (v, .ok size))
    (a : Allocator) (cb : Callback) : w.createTask a asked cb = v.createSized a size cb := by
  unfold createTask
  rw [sized]
  rfl

variable {w} in
theorem createTask_of_panic {asked : Nat} {v : World} {p : Payload}
    (left : w.stackSize asked = (v, .error p)) (a : Allocator) (cb : Callback) :
    w.createTask a asked cb = (v.dropCallback cb.tag cb.keep, .error (.panic p)) := by
  unfold createTask
  rw [left]

/-- Nothing but the size depends on the settings. -/
theorem createSized_veiled (veil : Veil) (a : Allocator) (size : Nat) (cb : Callback) :
    (veil.on w).createSized a size cb = veil.under (w.createSized a size cb) := by
  unfold createSized
  rw [allocateStack_veiled]
  rcases w.allocateStack a size with ⟨v, e | b⟩ <;> simp [Veil.under]

/-- Once the size is known, no panic can come. -/
theorem createSized_ne_panic (a : Allocator) (size : Nat) (cb : Callback) (p : Payload) :
    (w.createSized a size cb).2 ≠ .error (.panic p) := by
  unfold createSized
  rcases w.allocateStack a size with ⟨v, e | b⟩ <;> simp

@[simp] theorem settings_createSized (a : Allocator) (size : Nat) (cb : Callback) :
    (w.createSized a size cb).1.settings = w.settings :=
  settings_of_veiled (congrArg Prod.fst (createSized_veiled w w.settings.veil a size cb))

theorem settings_createTask (a : Allocator) (asked : Nat) (cb : Callback) :
    (w.createTask a asked cb).1.settings = (w.stackSize asked).1.settings := by
  rcases sized : w.stackSize asked with ⟨v, p | size⟩
  · rw [createTask_of_panic sized, settings_dropCallback]
  · rw [createTask_of_size sized, settings_createSized]

theorem settings_create (slot : SlotName) (size : Nat) (a : Allocator) (cb : Callback) :
    (w.create slot size a cb).1.settings = (w.stackSize size).1.settings := by
  rw [← w.settings_createTask a size cb]
  unfold create
  rcases w.createTask a size cb with ⟨v, (e | p) | id⟩ <;> simp

theorem settings_enterMain (size : Nat) (shape : EntryShape) (body : List Op) :
    (w.enterMain size shape body).1.settings = (w.currentFiber.1.stackSize size).1.settings := by
  rw [← w.currentFiber.1.settings_createTask .heap size ⟨body, none, []⟩]
  simp only [enterMain]
  rcases w.currentFiber.1.createTask .heap size ⟨body, none, []⟩ with ⟨v, (e | p) | id⟩
  · rfl
  · rfl
  · simp only
    split
    · rfl
    · exact (settings_letGo id _).trans (settings_entryOn ..)

/-! ## 3. Steps -/

variable {w}

/-- An operation that looks at no tunable, and asks for no stack of the default size, leaves
the settings as they are. -/
theorem settings_perform {op : Op} (quiet : op.tunes = false) (plain : op.sizes = false) :
    (w.perform op).1.settings = w.settings :=
  settings_of_veiled
    (congrArg Prod.fst (perform_veiled w.settings.veil w (.of_quiet quiet plain _)))

/-- A step does to the settings what the operation does that it begins. -/
theorem step_settings {op : Op} {v : World} (starts : w.Starts op v) :
    w.step.1.settings = (v.perform op).1.settings := by
  obtain ⟨rest, k, frames, rfl⟩ := starts
  simp only [step, frames]
  exact settings_settle ..

/-- Other steps leave the settings as they are. -/
theorem step_settings_idle (idle : w.next? = none) : w.step.1.settings = w.settings := by
  refine settings_of_veiled (congrArg Prod.fst (step_veiled w.settings.veil w ?_))
  intro op next
  simp [idle] at next

/-- Only an operation that asks for a stack of the default size binds it. -/
theorem step_defaultSize (plain : ∀ op, w.next? = some op → op.sizes = false) :
    w.step.1.process.defaultSize = w.process.defaultSize := by
  have same : w.step.1 = w.process.defaultSize.veil.on w.step.1 :=
    congrArg Prod.fst (step_veiled w.process.defaultSize.veil w fun op next =>
      ⟨fun _ => ⟨fun _ => rfl, fun _ _ => rfl⟩, fun sizes => by simp [plain op next] at sizes⟩)
  have shown : ∀ (d : DefaultSize) (v : World), (d.veil.on v).process.defaultSize = d :=
    fun _ _ => rfl
  exact (congrArg (fun v : World => v.process.defaultSize) same).trans (shown _ _)

theorem exists_starts {op : Op} (next : w.next? = some op) : ∃ v, w.Starts op v := by
  unfold next? at next
  split at next
  · rename_i op' rest k frames
    cases next
    exact ⟨_, rest, k, frames, rfl⟩
  · cases next

theorem Starts.next {op : Op} {v : World} (starts : w.Starts op v) : w.next? = some op := by
  obtain ⟨rest, k, frames, -⟩ := starts
  simp [next?, frames]

theorem Starts.settings {op : Op} {v : World} (starts : w.Starts op v) : v.settings = w.settings := by
  obtain ⟨rest, k, -, rfl⟩ := starts
  rfl

end World

namespace Machine

/-- What else a machine does in a step leaves the settings as they are. -/
theorem settings_step (m : Machine) : m.step.world.settings = m.world.step.1.settings := by
  rw [step_eq]
  rcases m.world.step with ⟨w, _ | e | child⟩
  · rfl
  · unfold take finishThread
    simp only
    split
    · unfold finishFirst
      cases e <;> simp
    · change w.releaseSlots.retire.settings = w.settings
      simp
  · rfl

end Machine

end FiberEngine
