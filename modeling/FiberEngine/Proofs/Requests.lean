/-
FiberEngine.Proofs.Requests — what each operation comes to.

A trusted request has a checked form, which is refused where the trusted one is
a violated contract. `World.Violates` says when an operation is one: its checked
form is refused, or it is an entry function that is called in a task.
`perform_lands` goes through all operations: whatever they report, and whatever
ends the process, is permitted by `World.Permits`. `carryOn_lands` says that an
operation that waited never violates a contract when it goes on.
-/
import FiberEngine.Proofs.Finishing

namespace FiberEngine

variable {texts fatal : String → Prop} {others : List FiberId}

/-! ## 1. Violated contracts -/

/-- The checked form of the request that an operation makes, if it trusts it. -/
def Op.checked? : Op → Option Op
  | .resume .trusted f => some (.resume .checked f)
  | .drive f _ => some (.resume .checked f)
  | .pause .trusted f => some (.pause .checked f)
  | .park _ => some (.pause .checked .current)
  | .reset .trusted f body tag keep => some (.reset .checked f body tag keep)
  | _ => none

/-- The operation makes its request of a fiber in this state. Only a loop of
resumes may make none at all. -/
def Op.Calls : Op → FiberState → Prop
  | .drive _ max, s => 0 < max ∧ s.terminal = false
  | _, _ => True

/-- The operation violates a contract, and why. -/
inductive World.Violates (w : World) : Op → FiberError → Prop
  | refused {op form : Op} {v : World} {s : FiberState} {e : FiberError}
    (trusts : op.checked? = some form) (calls : op.Calls s)
    (refused : w.perform form = (v, .done (.refused s e))) : Violates w op e
  /-- The task that an entry function creates would have to be resumed by a task. -/
  | nested {size : Nat} {shape : EntryShape} {body : List Op} {task : FiberId}
    (inside : w.thread.task? = some task) :
    Violates w (.entry size shape body) (.notOnMainFiber w.process.nextId task)

/-- What an operation may report, and what may be said when it ends the process. -/
structure World.Permits (w : World) (op : Op) (texts fatal : String → Prop) : Prop where
  sizes : ∀ e, texts (World.unavailableText e)
  asked : ∀ text, op = .report text → texts text
  violated : ∀ e, w.Violates op e → texts (fatalText e.message) ∧ fatal e.message

namespace World

variable {w : World} {r : Option FiberId} {h : List FiberId}

/-! ## 2. Under a handle -/

/-- An operation on a fiber that a reference denotes. -/
theorem onFiber_eq {f : FiberRef} {v : World} {id : FiberId} {g : Fiber}
    (denotes : w.fetch f = (v, some id)) (found : v.thread.fiber? id = some g)
    (act : World → Fiber → World × Outcome) :
    (v.hold id).thread.fiber? id = some { g with handles := g.handles + 1 } ∧
      w.onFiber f act = letGo id (act (v.hold id) { g with handles := g.handles + 1 }) := by
  have keeps : ∀ x : Fiber, { x with handles := x.handles + 1 }.id = x.id := fun _ => rfl
  have found' : (v.hold id).thread.fiber? id = some { g with handles := g.handles + 1 } := by
    change (v.thread.update id fun f => { f with handles := f.handles + 1 }).fiber? id = _
    simp [Thread.fiber?_update _ _ _ _ keeps, found]
  exact ⟨found', by simp only [onFiber, denotes, found']⟩

theorem onFiber_lands {f : FiberRef} {act : World → Fiber → World × Outcome}
    (sound : Stage.Sound others ⟨w, r, .exec, h⟩)
    (acts : ∀ {v g}, (∀ act', w.onFiber f act' = letGo g.id (act' v g)) →
      Stays texts ⟨w, r, .exec, h⟩ ⟨v, r, .exec, g.id :: h⟩ → v.thread.fiber? g.id = some g →
      Lands texts fatal ⟨v, r, .exec, g.id :: h⟩ (g.id :: h) (act v g)) :
    Lands texts fatal ⟨w, r, .exec, h⟩ h (w.onFiber f act) := by
  have fetched : Stays texts _ _ := fetch_stays f sound
  rcases fetch_cases f sound with ⟨v, eq⟩ | ⟨v, g, eq, found⟩ <;> rw [eq] at fetched
  · simp only [onFiber, eq]
    exact .done fetched trivial
  · have held : Stays texts _ ⟨v.hold g.id, r, .exec, g.id :: h⟩ :=
      fetched.trans (hold_stays found)
    have lands := acts (fun act' => (onFiber_eq eq found act').2) held (onFiber_eq eq found act).1
    rw [(onFiber_eq eq found act).2]
    exact lands.letGo.after held

/-- The running code puts a handle into a slot, and what was there is released. -/
theorem putSlot_stays {id : FiberId} (name : SlotName) :
    Stays texts ⟨w, r, .exec, id :: h⟩ ⟨w.putSlot name id, r, .exec, h⟩ := by
  have put : Stays texts ⟨w, r, .exec, id :: h⟩
      ⟨w.onThread fun t => t.setSlot name id, r, .exec, (w.thread.slot? name).toList ++ h⟩ :=
    ⟨.move (.setSlot name), rfl, rfl⟩
  exact put.trans (release_stays _)

/-- A fiber is created in a slot that was empty. -/
theorem create_eq {v : World} {slot : SlotName} {size : Nat} {a : Allocator} {cb : Callback} (id : FiberId)
    (created : w.createTask a size cb = (v, .ok id)) (empty : v.thread.slot? slot = none) :
    w.create slot size a cb = (v.onThread fun t => t.setSlot slot id,
      .done ((v.thread.fiber? id).elim .missing fun f => .created f.id f.state f.stackSize?)) := by
  simp only [create, created, putSlot, empty, Option.toList_none, release]
  cases v.thread.fiber? id <;> rfl

/-- A change of a demonstration that leaves its error output as it is. -/
theorem onProgram_stays (change : Program → Program)
    (keeps : ∀ p, (change p).output.stderr = p.output.stderr) :
    Stays texts ⟨w, r, .exec, h⟩ ⟨w.onProgram change, r, .exec, h⟩ := by
  refine .tune _ ⟨rfl, rfl, rfl, rfl, rfl, rfl, .inl ?_⟩
  unfold Process.errorOutput
  cases w.process.program with
  | none => rfl
  | some p => exact keeps p

/-! ## 3. Requests that a fiber can refuse -/

/-- Asking whether a fiber can be resumed leaves its state as it is. -/
theorem stateOf_resumeRefusal {g : Fiber} (found : w.thread.fiber? g.id = some g) :
    (w.resumeRefusal g).1.stateOf g.id = g.state := by
  have asked := fiber?_currentFiber found
  unfold resumeRefusal
  split
  · simp only [stateOf, found]
  · split
    split <;> rename_i eq _ <;> rw [eq] at asked <;> simp only [stateOf, asked]

/-- What a checked resume answers where a trusted one violates its contract. -/
theorem letGo_resume_checked {g : Fiber} {p : Pending} {e : FiberError}
    (found : w.thread.fiber? g.id = some g) (refused : (w.resumeRefusal g).2 = some e) :
    ∃ v, letGo g.id (w.resume .checked g p) = (v, .done (.refused g.state e)) := by
  have same := stateOf_resumeRefusal found
  rcases eq : w.resumeRefusal g with ⟨v, _ | e'⟩ <;> rw [eq] at refused same
  · cases refused
  · obtain rfl : e' = e := Option.some.inj refused
    exact ⟨v.release [g.id], by simp only [resume, eq, reject, letGo, same]⟩

/-- Taking handles changes how many there are, and nothing else of a fiber. -/
theorem fiber?_holdAll {id : FiberId} {g : Fiber} (fs : List FiberRef)
    (found : w.thread.fiber? id = some g) :
    ∃ n, (w.holdAll fs).1.thread.fiber? id = some { g with handles := n } := by
  induction fs generalizing w g with
  | nil => exact ⟨g.handles, found⟩
  | cons f rest ih =>
    have fetched : (w.fetch f).1.thread.fiber? id = some g := by
      cases f with
      | slot name => exact found
      | current => exact fiber?_currentFiber found
    rcases eq : w.fetch f with ⟨v, _ | other⟩ <;> rw [eq] at fetched
    · simp only [holdAll, eq]
      exact ih fetched
    · have keeps : ∀ x : Fiber, { x with handles := x.handles + 1 }.id = x.id := fun _ => rfl
      have held : ∃ n, (v.hold other).thread.fiber? id = some { g with handles := n } := by
        change ∃ n, (v.thread.update other fun f => { f with handles := f.handles + 1 }).fiber? id =
          some { g with handles := n }
        rw [Thread.fiber?_update _ _ _ _ keeps, fetched]
        by_cases mine : id = other
        · exact ⟨g.handles + 1, by simp [mine]⟩
        · exact ⟨g.handles, by simp [mine]⟩
      obtain ⟨n, held⟩ := held
      obtain ⟨n', after⟩ := ih held
      simp only [holdAll, eq]
      exact ⟨n', after⟩

section

variable (sound : Stage.Sound others (w.stage r)) (body : Body r w.thread.frames)

include sound body

theorem resume_permitted {m : Manner} {f : FiberRef}
    (permits : w.Permits (.resume m f) texts fatal) :
    Lands texts fatal (w.stage r) (Frame.allHandles w.thread.frames)
      (w.perform (.resume m f)) := by
  rw [perform]
  refine onFiber_lands sound fun {v g} unfolded stays found => ?_
  have sound := stays.sound sound
  have frames : v.thread.frames = w.thread.frames := stays.frames
  rw [← frames] at body sound ⊢
  refine resume_lands sound found body rfl ?_
  intro e trusted refused
  subst trusted
  obtain ⟨u, answered⟩ := letGo_resume_checked (p := .resume .checked g.id) found refused
  refine permits.violated e (.refused rfl trivial (v := u) (s := g.state) ?_)
  rw [perform, unfolded, answered]

theorem drive_permitted {f : FiberRef} {max : Nat}
    (permits : w.Permits (.drive f max) texts fatal) :
    Lands texts fatal (w.stage r) (Frame.allHandles w.thread.frames)
      (w.perform (.drive f max)) := by
  rw [perform]
  refine onFiber_lands sound fun {v g} unfolded stays found => ?_
  have sound := stays.sound sound
  have frames : v.thread.frames = w.thread.frames := stays.frames
  rw [← frames] at body sound ⊢
  unfold driveOn
  split
  · exact .done (.refl _) trivial
  · rename_i goes
    refine resume_lands sound found body rfl ?_
    intro e _ refused
    obtain ⟨u, answered⟩ := letGo_resume_checked (p := .resume .checked g.id) found refused
    have calls : (Op.drive f max).Calls g.state := by
      simp only [Bool.or_eq_true, decide_eq_true_eq, not_or, Bool.not_eq_true, Nat.not_le] at goes
      exact ⟨goes.2, goes.1⟩
    refine permits.violated e (.refused rfl calls (v := u) ?_)
    rw [perform, unfolded, answered]

theorem pause_permitted {m : Manner} {f : FiberRef} (permits : w.Permits (.pause m f) texts fatal) :
    Lands texts fatal (w.stage r) (Frame.allHandles w.thread.frames)
      (w.perform (.pause m f)) := by
  rw [perform]
  refine onFiber_lands sound fun {v g} unfolded stays found => ?_
  have sound := stays.sound sound
  have frames : v.thread.frames = w.thread.frames := stays.frames
  rw [← frames] at body sound ⊢
  refine suspend_lands (p := .pause m g.id) sound found body rfl rfl ?_
  intro e trusted refused
  subst trusted
  refine permits.violated e (.refused rfl trivial (v := v.release [g.id]) (s := v.stateOf g.id) ?_)
  rw [perform, unfolded]
  simp only [suspend, refused, reject, letGo]

theorem park_permitted {p : Parking} (permits : w.Permits (.park p) texts fatal) :
    Lands texts fatal (w.stage r) (Frame.allHandles w.thread.frames) (w.perform (.park p)) := by
  have stays : Stays texts _ _ := currentFiber_stays sound
  obtain ⟨v, g, eq, found⟩ := currentFiber_found sound
  have denotes : w.fetch .current = (v, some g.id) := by simp only [fetch, eq]
  rw [eq] at stays
  have after := stays.sound sound
  have frames : v.thread.frames = w.thread.frames := stays.frames
  simp only [perform, eq, found]
  refine Lands.after stays ?_
  rw [← frames] at body after ⊢
  refine suspend_lands (p := .park p) after found body trivial rfl ?_
  intro e _ refused
  have unfolded := (onFiber_eq denotes found
    fun w f => w.suspend .checked f .ready (.pause .checked f.id)).2
  have refused' : Fiber.yieldRefusal? { g with handles := g.handles + 1 }
      (v.hold g.id).thread.currentId = some e := refused
  refine permits.violated e (.refused rfl trivial (v := (v.hold g.id).release [g.id])
    (s := (v.hold g.id).stateOf g.id) ?_)
  rw [perform, unfolded]
  simp only [suspend, refused', reject, letGo]

omit body in
theorem reset_permitted {m : Manner} {f : FiberRef} {ops : List Op} {tag : Option String}
    {keep : List FiberRef} (permits : w.Permits (.reset m f ops tag keep) texts fatal) :
    Lands texts fatal (w.stage r) (Frame.allHandles w.thread.frames)
      (w.perform (.reset m f ops tag keep)) := by
  rw [perform]
  refine onFiber_lands sound fun {v g} unfolded stays found => ?_
  have sound := stays.sound sound
  have held : Stays texts _ _ := holdAll_stays keep sound
  have after := held.sound sound
  refine Lands.after held ?_
  obtain ⟨n, found'⟩ := fiber?_holdAll keep found
  rcases eq : v.holdAll keep with ⟨u, ids⟩
  rw [eq] at after found'
  have after : Stage.Sound others ⟨u, r, .exec, (Callback.mk ops tag ids).keep ++
      g.id :: Frame.allHandles w.thread.frames⟩ := after
  change Lands texts fatal _ _ (u.reset m { g with handles := n } ⟨ops, tag, ids⟩)
  refine reset_lands (f := { g with handles := n }) after found' ?_
  intro e trusted refused
  subst trusted
  have refused : g.resetRefusal? = some e := refused
  refine permits.violated e (.refused rfl trivial
    (v := (u.dropCallback tag ids).release [g.id]) (s := (u.dropCallback tag ids).stateOf g.id) ?_)
  rw [perform, unfolded]
  simp only [eq, reset, refused, reject, letGo]

/-! ## 4. Creating -/

omit body in
theorem create_permitted {slot : SlotName} {size : Nat} {a : Allocator} {ops : List Op}
    {tag : Option String} {keep : List FiberRef}
    (permits : w.Permits (.create slot size a ops tag keep) texts fatal) :
    Lands texts fatal (w.stage r) (Frame.allHandles w.thread.frames)
      (w.perform (.create slot size a ops tag keep)) := by
  have held : Stays texts _ _ := holdAll_stays keep sound
  rcases eq : w.holdAll keep with ⟨v, ids⟩
  rw [eq] at held
  have made : Stays texts ⟨v, r, .exec, (Callback.mk ops tag ids).keep ++
      Frame.allHandles w.thread.frames⟩ _ := createTask_stays permits.sizes a size ⟨ops, tag, ids⟩
  simp only [perform, eq, create]
  rcases created : v.createTask a size ⟨ops, tag, ids⟩ with ⟨u, (e | p) | id⟩ <;>
    rw [created] at made
  · exact .done (held.trans made) (createTask_error created)
  · exact .panicked (held.trans made)
  · refine .done ((held.trans made).trans (putSlot_stays slot)) ?_
    split <;> trivial

/-- The first resume of an entry function is refused only inside a task. -/
theorem entry_permitted {size : Nat} {shape : EntryShape} {ops : List Op}
    (permits : w.Permits (.entry size shape ops) texts fatal) :
    Lands texts fatal (w.stage r) (Frame.allHandles w.thread.frames)
      (w.perform (.entry size shape ops)) := by
  have asked : Stays texts _ _ := currentFiber_stays sound
  have before := asked.sound sound
  have made : Stays texts ⟨w.currentFiber.1, r, .exec, (Callback.mk ops none []).keep ++
      Frame.allHandles w.thread.frames⟩ _ :=
    createTask_stays permits.sizes .heap size ⟨ops, none, []⟩
  have after := made.sound before
  have frames := (asked.trans made).frames
  simp only [perform, enterMain]
  rcases created : w.currentFiber.1.createTask .heap size ⟨ops, none, []⟩ with ⟨v, (e | p) | id⟩ <;>
    rw [created] at made after frames
  · exact .panicked (asked.trans made)
  · exact .panicked (asked.trans made)
  · obtain ⟨next, -, lease, -, -, found⟩ := createTask_new before created
    simp only [found]
    have frames : v.thread.frames = w.thread.frames := frames
    have stays := asked.trans made
    refine Lands.after stays (Lands.letGo ?_)
    have after : Stage.Sound others ⟨v, r, .exec, id :: Frame.allHandles v.thread.frames⟩ := by
      rw [frames]
      exact after
    have runs : v.entryOn (Fiber.task id lease ⟨ops, none, []⟩) size shape none =
        v.resume .trusted (Fiber.task id lease ⟨ops, none, []⟩) (.entry size shape id none) := rfl
    rw [runs]
    rw [← frames] at body ⊢
    refine resume_lands (f := Fiber.task id lease ⟨ops, none, []⟩) after found body rfl ?_
    intro e _ refused
    have can : (Fiber.task id lease ⟨ops, none, []⟩).resumeRefusal? = none := rfl
    simp only [resumeRefusal, can] at refused
    cases r with
    | none =>
      have isMain := main_of_currentFiber after
      simp [isMain, Fiber.task] at refused
    | some task =>
      have apart := (after.thread.apart task rfl).2
      rw [currentFiber_of_runner after.thread] at refused
      simp only [if_neg apart, Option.some.injEq] at refused
      rw [currentFiber_of_runner sound.thread] at next
      subst refused
      have inside : w.thread.task? = some task := sound.thread.task
      have nested := permits.violated _ (.nested inside)
      simpa [Fiber.task, next] using nested

end

/-! ## 5. Threads, blocks and demonstrations -/

/-- A thread is started under an operation that waits for its end. -/
theorem spawn_lands (kind : ThreadKind) (ops : List Op) (body : Body r w.thread.frames) :
    Lands texts fatal (w.stage r) (Frame.allHandles w.thread.frames) (w.spawn kind ops) := by
  have started : ∀ v, Stays texts (w.stage r) ⟨v, r, .exec, Frame.allHandles w.thread.frames⟩ →
      Lands texts fatal (w.stage r) (Frame.allHandles w.thread.frames)
        (v.onThread fun t => t.push (.waiting (.join kind none)), .started (child kind ops)) := by
    intro v stays
    have frames : v.thread.frames = w.thread.frames := stays.frames
    have pushed : Leads texts ⟨v, r, .exec, Frame.allHandles w.thread.frames⟩
        ((v.goOn (.waiting (.join kind none) :: v.thread.frames)).stage r) := by
      rw [← frames] at body ⊢
      exact .move (.goOn _ (body.getLast?_cons _))
    exact .started (stays.leads.trans pushed) (congrArg _ frames)
  unfold spawn
  split
  · exact .panicked (.refl _)
  · cases kind with
    | engine name => exact started _ (.log (.threadSpawned name) trivial)
    | plain name => exact started _ (.refl _)

theorem pieceText_stays (p : Piece) (sound : Stage.Sound others ⟨w, r, .exec, h⟩) :
    Stays texts ⟨w, r, .exec, h⟩ ⟨(w.pieceText p).1, r, .exec, h⟩ := by
  have piece : ∀ f text, Stays texts ⟨w, r, .exec, h⟩ ⟨(w.pieceOf f text).1, r, .exec, h⟩ := by
    intro f text
    have fetched : Stays texts _ _ := fetch_stays f sound
    unfold pieceOf
    split <;> rename_i eq <;> rw [eq] at fetched <;> exact fetched
  cases p with
  | id f | state f | stackSize f | refusal f => exact piece f _
  | _ => exact .refl _

theorem lineText_stays (line : List Piece) (sound : Stage.Sound others ⟨w, r, .exec, h⟩) :
    Stays texts ⟨w, r, .exec, h⟩ ⟨(w.lineText line).1, r, .exec, h⟩ := by
  induction line generalizing w with
  | nil => exact .refl _
  | cons p rest ih =>
    have first : Stays texts _ _ := pieceText_stays p sound
    exact first.trans (ih (first.sound sound))

/-- Answers about a fiber leave everything as it is. -/
theorem answer_lands {f : FiberRef} (reply : World → Fiber → Reply)
    (sound : Stage.Sound others ⟨w, r, .exec, h⟩) (plain : ∀ v g, (reply v g).Plain) :
    Lands texts fatal ⟨w, r, .exec, h⟩ h (w.onFiber f fun w g => w.answer (reply w g)) :=
  onFiber_lands sound fun {v g} _ _ _ => .done (.refl _) (plain v g)

/-- The code goes on after something that stays in place. -/
theorem next_lands {v : World}
    (stays : Stays texts (w.stage r) ⟨v, r, .exec, Frame.allHandles w.thread.frames⟩)
    (body : Body r w.thread.frames) : Lands texts fatal (w.stage r) h (v, .next) := by
  have frames : v.thread.frames = w.thread.frames := stays.frames
  have leads := stays.leads
  rw [← frames] at leads body
  exact .next leads (.body body) (continues_of_body body)

/-- More code above the running one. -/
theorem push_leads (fr : Frame) (inner : fr.isInner) (body : Body r w.thread.frames) :
    Leads texts (w.stage r) ((w.onThread fun t => t.push fr).stage r) ∧
      Body r (w.onThread fun t => t.push fr).thread.frames := by
  have above : Body r (fr :: w.thread.frames) := .inner inner body
  have same : Frame.allHandles (fr :: w.thread.frames) = Frame.allHandles w.thread.frames := by
    simp [Body.handles_inner inner]
  refine ⟨?_, above⟩
  change Leads texts _ ⟨w.goOn (fr :: w.thread.frames), r, .exec,
    Frame.allHandles (fr :: w.thread.frames)⟩
  rw [same]
  exact .move (.goOn _ (body.getLast?_cons _))

theorem allocBlock_lands (name : String) (a : Allocator) (size : Nat) :
    Lands texts fatal ⟨w, r, .exec, h⟩ h (w.allocBlock name a size) := by
  unfold allocBlock
  obtain ⟨v, -, stays, ⟨n, allocated⟩ | ⟨e, refused⟩⟩ := @allocate_cases texts w r h a size
  · simp only [allocated]
    exact .done (stays.trans ⟨.move (.allocBlock name a n), rfl, rfl⟩) trivial
  · simp only [refused]
    exact .done stays (allocate_error refused)

theorem freeBlock_lands (name : String) (a : Allocator) :
    Lands texts fatal ⟨w, r, .exec, h⟩ h (w.freeBlock name a) := by
  unfold freeBlock
  split
  · exact .done (.refl _) trivial
  · rename_i b kept
    refine .done ⟨.move (.freeBlock name a kept), rfl, ?_⟩ trivial
    have same := (w.onThread fun t => t.clearBlock name).deallocate_same ⟨b, a⟩
    exact (congrArg Thread.frames same.thread).trans (Thread.takeBack_frames ..)

theorem saveBlock_lands (name : String) {f : Fiber} (found : w.thread.fiber? f.id = some f) :
    Lands texts fatal ⟨w, r, .exec, h⟩ h (w.saveBlock name f) := by
  unfold saveBlock
  split
  · exact .done (.refl _) trivial
  · rename_i b block
    exact .done ⟨.move (.saveBlock name found block), rfl, rfl⟩ trivial

theorem isBlock_lands (name : String) (f : Fiber) :
    Lands texts fatal ⟨w, r, .exec, h⟩ h (w.isBlock name f) := by
  unfold isBlock
  split <;> exact .done (.refl _) trivial

theorem dropSlot_lands (slot : SlotName) :
    Lands texts fatal ⟨w, r, .exec, h⟩ h (w.dropSlot slot) := by
  unfold dropSlot
  split
  · exact .done (.refl _) trivial
  · rename_i id eq
    have cleared : Stays texts ⟨w, r, .exec, h⟩
        ⟨w.onThread fun t => t.clearSlot slot, r, .exec, (w.thread.slot? slot).toList ++ h⟩ :=
      ⟨.move (.clearSlot slot), rfl, rfl⟩
    rw [eq] at cleared
    exact .done (cleared.trans (release_stays [id])) trivial

theorem startDemo_lands (d : Demo) (body : Body r w.thread.frames) :
    Lands texts fatal (w.stage r) h (w.startDemo d) := by
  have tuned : Stays texts (w.stage r)
      (World.stage { w with process :=
        { w.process with program := some ⟨⟨"", ""⟩, 0, none⟩ } } r) :=
    .tune _ ⟨rfl, rfl, rfl, rfl, rfl, rfl, .inr rfl⟩
  obtain ⟨leads, body⟩ := push_leads (.program d) rfl (w := { w with process :=
    { w.process with program := some ⟨⟨"", ""⟩, 0, none⟩ } }) body
  obtain ⟨more, body⟩ := push_leads (.ops d.script) rfl body
  exact .next ((tuned.leads.trans leads).trans more) (.body body) (continues_of_body body)

/-! ## 6. All operations -/

/-- Every operation that is no early return comes to what it may. -/
theorem perform_lands {op : Op} (sound : Stage.Sound others (w.stage r))
    (body : Body r w.thread.frames) (request : ∀ v, op ≠ .leave v)
    (permits : w.Permits op texts fatal) :
    Lands texts fatal (w.stage r) (Frame.allHandles w.thread.frames) (w.perform op) := by
  cases op with
  | leave v => exact absurd rfl (request v)
  | resume m f => exact resume_permitted sound body permits
  | pause m f => exact pause_permitted sound body permits
  | reset m f ops tag keep => exact reset_permitted sound permits
  | park p => exact park_permitted sound body permits
  | drive f max => exact drive_permitted sound body permits
  | create slot size a ops tag keep => exact create_permitted sound permits
  | entry size shape ops => exact entry_permitted sound body permits
  | say _ | currentId | total | stackStats | threadName | constants | states | fiberError _
  | configError _ | illFormed _ => exact .done (.refl _) trivial
  | backtrace force _ => cases force <;> exact .done (.refl _) trivial
  | describe name =>
    refine .done (.refl _) ?_
    unfold describeVar
    split <;> trivial
  | get kind name =>
    refine .done (.refl _) ?_
    unfold getVar
    split <;> trivial
  | sameVar kind name other =>
    refine .done (.refl _) ?_
    unfold World.sameVar
    split <;> trivial
  | debugVar kind name =>
    refine .done (.refl _) ?_
    unfold World.debugVar
    split <;> trivial
  | loop times ops =>
    simp only [perform]
    split
    · exact .next (.refl _) (.body body) (continues_of_body body)
    · obtain ⟨leads, body⟩ := push_leads (.loop times ops) rfl body
      exact .next leads (.body body) (continues_of_body body)
  | attempt ops =>
    obtain ⟨leads, body⟩ := push_leads .catching rfl body
    obtain ⟨more, body⟩ := push_leads (.ops ops) rfl body
    exact .next (leads.trans more) (.body body) (continues_of_body body)
  | panic p => exact .panicked (.refl _)
  | state f => exact answer_lands (fun _ g => .label g.state) sound fun _ _ => trivial
  | info f =>
    exact answer_lands (fun _ g => .info g.id g.state g.isMain g.stackSize?) sound
      fun _ _ => trivial
  | clone f slot =>
    rw [perform]
    refine onFiber_lands sound fun {v g} _ stays found => ?_
    have held : Stays texts ⟨v, r, .exec, g.id :: Frame.allHandles w.thread.frames⟩ _ :=
      hold_stays found
    exact .done (held.trans (putSlot_stays slot)) trivial
  | drop slot => exact dropSlot_lands slot
  | same f g =>
    rw [perform]
    refine onFiber_lands sound fun {v f'} _ stays _ => ?_
    exact answer_lands (fun _ g' => sameFibers f' g') (stays.sound sound) fun _ _ => trivial
  | allocBlock name a size => exact allocBlock_lands name a size
  | freeBlock name a => exact freeBlock_lands name a
  | saveBlock f name =>
    rw [perform]
    exact onFiber_lands sound fun {v g} _ _ found => saveBlock_lands name found
  | isBlock f name =>
    rw [perform]
    exact onFiber_lands sound fun {v g} _ _ _ => isBlock_lands name g
  | report text =>
    have reported : Stays texts (w.stage r) _ := .report (permits.asked text rfl)
    simp only [perform]
    split <;> rename_i eq <;> rw [eq] at reported
    · exact .done reported trivial
    · exact .panicked reported
  | setHook hook =>
    exact .done (.tune _ ⟨rfl, rfl, rfl, rfl, rfl, rfl, .inl rfl⟩) trivial
  | setThreadName name => exact .done (.equip _ ⟨rfl, rfl, rfl, rfl, rfl⟩ ⟨rfl, rfl, rfl, rfl, rfl⟩) trivial
  | thread kind ops => exact spawn_lands kind ops body
  | demo d => exact startDemo_lands d body
  | lookup name default description =>
    refine .done (lookupVar_stays name default description) ?_
    unfold lookupVar
    split <;> trivial
  | assign name value =>
    refine .done (assignVar_stays name value) ?_
    unfold assignVar
    split <;> trivial
  | parse name text =>
    refine .done (parseVar_stays name text) ?_
    unfold parseVar
    split
    · trivial
    · split <;> trivial
  | stage name text apply =>
    refine .done (stageVar_stays name text apply) ?_
    unfold stageVar
    split
    · trivial
    · simp only
      split <;> trivial
  | visit register => exact .done (visitAll_stays register _) trivial
  | load source =>
    refine .done (loadDocument_stays source) ?_
    unfold loadDocument
    split
    · trivial
    · split <;> trivial
  | print line =>
    have read : Stays texts _ _ := lineText_stays line sound
    exact next_lands (read.trans (onProgram_stays _ fun _ => rfl)) body
  | tick => exact next_lands (onProgram_stays _ fun _ => rfl) body
  | requireJoined =>
    simp only [perform]
    split
    · exact .panicked (.refl _)
    · exact .next (.refl _) (.body body) (continues_of_body body)

/-! ## 7. Going on -/

/-- By the main fiber, a task whose callback has not ended is never refused. -/
theorem accepted_of_awaited {f : Fiber} (sound : Stage.Sound others ⟨w, none, .exec, h⟩)
    (found : w.thread.fiber? f.id = some f) (notMain : w.thread.main ≠ some f.id)
    (goes : f.state.terminal = false) : (w.resumeRefusal f).2 = none := by
  have isMain := main_of_currentFiber sound
  have rests := sound.thread.rests found notMain (by simp)
  have can : f.state.canResume := by
    cases rests with
    | waiting onStack state context callback => simp [state, FiberState.canResume]
    | suspended onStack state context callback body pauses =>
      rcases state with state | state <;> simp [state, FiberState.canResume]
    | finished onStack state context callback => simp [state] at goes
  have context : f.context.isNone = false := by
    cases rests <;> simp_all
  simp [resumeRefusal, Fiber.resumeRefusal?, can, isMain, context]

/-- An operation that waited goes on under the handle that it has. -/
theorem onHeld_lands {id : FiberId} {act : Fiber → World × Outcome}
    (sound : Stage.Sound others ⟨w, r, .exec, id :: h⟩)
    (acts : ∀ {f}, w.thread.fiber? f.id = some f → f.id = id →
      Lands texts fatal ⟨w, r, .exec, id :: h⟩ (id :: h) (act f)) :
    Lands texts fatal ⟨w, r, .exec, id :: h⟩ h (w.onHeld id act) := by
  have mine : id ∈ id :: h := by simp
  obtain ⟨f, found⟩ := sound.thread.exists_of_held mine
  have same := Thread.id_of_fiber? found
  simp only [onHeld, found]
  exact (acts (same.symm ▸ found) same).letGo

/-- An operation that waited violates no contract when it goes on. -/
theorem carryOn_lands {p : Pending}
    (sound : Stage.Sound others ⟨w, r, .exec, p.handles ++ Frame.allHandles w.thread.frames⟩)
    (body : Body r w.thread.frames)
    (home : ∀ id, p.Awaits id → r = none ∧ w.thread.main ≠ some id) :
    Lands texts fatal ⟨w, r, .exec, p.handles ++ Frame.allHandles w.thread.frames⟩
      (Frame.allHandles w.thread.frames) (w.carryOn p) := by
  cases p with
  | resume m id => exact onHeld_lands sound fun {f} _ _ => .done (.refl _) trivial
  | pause m id => exact onHeld_lands sound fun {f} _ _ => .done (.refl _) trivial
  | park p => exact .done (.refl _) trivial
  | join kind ending =>
    refine .done ?_ trivial
    unfold noteWorker
    split
    · exact .refl _
    · exact onProgram_stays _ fun _ => rfl
  | drive id done max =>
    obtain ⟨rfl, notMain⟩ := home id rfl
    refine onHeld_lands sound fun {f} found same => ?_
    subst same
    unfold driveOn
    split
    · exact .done (.refl _) trivial
    · rename_i goes
      have goes : f.state.terminal = false := by simp_all
      refine resume_lands sound found body rfl ?_
      intro e _ refused
      simp [accepted_of_awaited sound found notMain goes] at refused
  | entry size shape id result =>
    obtain ⟨rfl, notMain⟩ := home id rfl
    refine onHeld_lands sound fun {f} found same => ?_
    subst same
    unfold entryOn
    split
    · split
      · refine .done (.refl _) ?_
        unfold entryReply
        cases shape with
        | value | unit => trivial
        | early =>
          simp only
          split
          · trivial
          · split <;> trivial
      · exact .panicked (.refl _)
    · rename_i goes
      have goes : f.state.terminal = false := by simpa using goes
      refine resume_lands sound found body rfl ?_
      intro e _ refused
      simp [accepted_of_awaited sound found notMain goes] at refused

end World

end FiberEngine
