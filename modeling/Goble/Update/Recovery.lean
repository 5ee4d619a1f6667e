import Goble.Update.Install

/-!
# What the markers decide at a start

Over whole histories of installs, starts and ends, a broken update is undone (`Undone`), and a new
build gets its chance (`GetsChance`): a start puts the copy back only if an earlier start of the
install ended before a healthy marker was written.

`recover` only looks at whether there is a healthy marker, and `apply` never removes one. So the
first holds along the histories in which nothing is installed while an old marker is there, and the
second along those in which nothing is installed while there is none: each apply that does not
meet the condition can be followed by a start that breaks the property.
-/

namespace Goble.Update

variable {Build : Type} (root : Path)

def Aside (path : Path) : Prop := path.dropLast = Disk.previousDir root

instance (path : Path) : Decidable (Aside root path) := inferInstanceAs (Decidable (_ = _))

def Starting (s : State Build) : Prop :=
  ∃ installing watch, s.proc = some ⟨false, installing, watch⟩

/-- **A broken update is undone.** -/
def Undone (p : State Build × History Build) : Prop :=
  ∀ i, Starting p.1 → p.2.install = some i → p.1.disk.pending = some i.pending →
    i.swapped = true → i.ended = true → i.vouched = false →
    ∀ io : RecoverIo Build, io.restored = true → io.recorded = true →
      (p.1.disk.recover io).2 =
          .ok (.restored i.pending.version i.pending.epoch i.pending.target) ∧
        (∃ copy, i.copy = some copy ∧
          (p.1.disk.recover io).1.files i.pending.target = some copy) ∧
        (p.1.disk.recover io).1.state.failedVersion = some i.pending.version ∧
        (p.1.disk.recover io).1.state.failedEpoch = i.pending.epoch

def GetsChance (p : State Build × History Build) : Prop :=
  ∀ io version epoch target, Starting p.1 →
    (p.1.disk.recover io).2 = .ok (.restored version epoch target) →
    ∃ i, p.2.install = some i ∧ p.1.disk.pending = some i.pending ∧ i.swapped = true ∧
      i.ended = true

/-! ### Undoing -/

/-- An apply writes its marker while there is no healthy one, replaces nothing among the copies,
and is not cut short between its backup and its marker while the marker of another install
stands. -/
def Guarded (p : State Build × History Build) (l : Label Build) : Prop :=
  match l with
  | .writePending _ _ ok =>
    if ok then p.1.disk.healthy = false else p.1.disk.pending = none
  | .backup _ target copied =>
    ¬ Aside root target ∧
      ((p.1.disk.backup root target copied).2.toBool = false → p.1.disk.pending = none)
  | .die =>
    match p.1.proc with
    | some ⟨_, .backedUp _ _ _, _⟩ => p.1.disk.pending = none
    | _ => True
  | _ => True

instance decidableGuarded (p : State Build × History Build) :
    ∀ l : Label Build, Decidable (Guarded root p l)
  | .writePending _ _ true => inferInstanceAs (Decidable (p.1.disk.healthy = false))
  | .writePending _ _ false => inferInstanceAs (Decidable (p.1.disk.pending = none))
  | .backup _ target copied => inferInstanceAs (Decidable (¬ Aside root target ∧
      ((p.1.disk.backup root target copied).2.toBool = false → p.1.disk.pending = none)))
  | .die =>
    match h : p.1.proc with
    | some ⟨_, .backedUp _ _ _, _⟩ =>
      decidable_of_iff (p.1.disk.pending = none) (by simp only [Guarded, h])
    | none => isTrue (by simp only [Guarded, h])
    | some ⟨_, .idle, _⟩ | some ⟨_, .marked _ _, _⟩ | some ⟨_, .applied, _⟩
    | some ⟨_, .spawned _, _⟩ => isTrue (by simp only [Guarded, h])
  | .start _ | .recover _ | .replaceFile _ | .replaceFails _ _ | .spawnScript _ _
  | .scriptSwaps _ | .scriptFails _ _ | .markHealthy _ | .clearPending _
  | .confirm _ _ => isTrue trivial

/-- A marker as `apply` writes it. -/
structure Valid (pending : PendingInstall) : Prop where
  target_outside : ¬ Aside root pending.target
  target_named : (fileName pending.target).isSome = true
  previous_aside : ∃ previous, pending.previous = some previous ∧ Aside root previous

/-- What the install thread has done is what it goes by. -/
def StageOk (disk : Disk Build) (h : History Build) : Installing Build → Prop
  | .idle | .applied => True
  | .backedUp _ target previous =>
    ¬ Aside root target ∧ (fileName target).isSome = true ∧ Aside root previous ∧
      disk.files previous = h.copied ∧ h.copied.isSome = true
  | .marked _ pending => Valid root pending
  | .spawned swap => Valid root swap.pending

/-- The copy that the marker names is the one its apply made. -/
def CopyKept (disk : Disk Build) (i : Install Build) : Prop :=
  i.copy.isSome = true ∧ i.pending.previous.bind disk.files = i.copy

/-- The install thread is between its backup and its marker. -/
def Installing.touching : Installing Build → Bool
  | .backedUp _ _ _ => true
  | _ => false

structure Kept (p : State Build × History Build) : Prop where
  starting_idle : ∀ installing watch, p.1.proc = some ⟨false, installing, watch⟩ →
    installing = .idle
  stage : ∀ proc, p.1.proc = some proc → StageOk root p.1.disk p.2 proc.installing
  scripts : ∀ swap ∈ p.1.scripts, Valid root swap.pending
  marker : ∀ pending, p.1.disk.pending = some pending → ∃ i, p.2.install = some i ∧
    i.pending = pending ∧ Valid root pending ∧ (p.1.disk.healthy = true → i.vouched = true) ∧
    (CopyKept p.1.disk i ∨ ∃ proc, p.1.proc = some proc ∧ proc.installing.touching = true)

variable {disk disk' : Disk Build}

section Frame

variable {root} {p q : State Build × History Build}

theorem CopyKept.of_files {i i' : Install Build} (h : CopyKept disk i)
    (hvalid : Valid root i.pending)
    (hfiles : ∀ path, Aside root path → disk'.files path = disk.files path)
    (hpending : i'.pending = i.pending) (hcopy : i'.copy = i.copy) : CopyKept disk' i' := by
  obtain ⟨previous, hprevious, haside⟩ := hvalid.previous_aside
  obtain ⟨hsome, hkept⟩ := h
  rw [hprevious, Option.bind_some] at hkept
  refine ⟨hcopy ▸ hsome, ?_⟩
  rw [hpending, hprevious, Option.bind_some, hfiles previous haside, hkept, hcopy]

theorem StageOk.of_files {h h' : History Build} {installing : Installing Build}
    (hok : StageOk root disk h installing)
    (hfiles : ∀ path, Aside root path → disk'.files path = disk.files path)
    (hcopied : h'.copied = h.copied) : StageOk root disk' h' installing := by
  cases installing with
  | backedUp plan target previous =>
    obtain ⟨houtside, hnamed, haside, hcopy, hsome⟩ := hok
    exact ⟨houtside, hnamed, haside, by rw [hfiles _ haside, hcopy, hcopied], hcopied ▸ hsome⟩
  | idle | applied | marked | spawned => exact hok

structure Frame (root : Path) (p q : State Build × History Build) : Prop where
  files : ∀ path, Aside root path → q.1.disk.files path = p.1.disk.files path
  copied : q.2.copied = p.2.copied
  marker : ∀ pending, q.1.disk.pending = some pending → p.1.disk.pending = some pending
  install : ∀ i, p.2.install = some i → ∃ i', q.2.install = some i' ∧ i'.pending = i.pending ∧
    i'.copy = i.copy ∧ (q.1.disk.healthy = true →
      p.1.disk.healthy = true ∧ i'.vouched = i.vouched ∨ i'.vouched = true)

theorem Frame.kept (f : Frame root p q) (h : Kept root p)
    (hidle : ∀ installing watch, q.1.proc = some ⟨false, installing, watch⟩ → installing = .idle)
    (hstage : ∀ proc, q.1.proc = some proc → StageOk root q.1.disk q.2 proc.installing)
    (hscripts : ∀ swap ∈ q.1.scripts, Valid root swap.pending)
    (htouching : q.1.disk.pending ≠ none →
      ∀ proc, p.1.proc = some proc → proc.installing.touching = true →
        ∃ proc', q.1.proc = some proc' ∧ proc'.installing.touching = true) : Kept root q := by
  refine ⟨hidle, hstage, hscripts, fun pending hpending => ?_⟩
  obtain ⟨i, hi, rfl, hvalid, hvouched, hcopy⟩ := h.marker pending (f.marker pending hpending)
  obtain ⟨i', hi', hsame, hcopy', hmarker⟩ := f.install i hi
  refine ⟨i', hi', hsame, hvalid, fun hhealthy => ?_, ?_⟩
  · obtain ⟨hbefore, hkeep⟩ | hnow := hmarker hhealthy
    · rw [hkeep]
      exact hvouched hbefore
    · exact hnow
  · obtain hkept | ⟨proc, hproc, htouch⟩ := hcopy
    · exact .inl (hkept.of_files hvalid f.files hsame hcopy')
    · refine .inr (htouching ?_ proc hproc htouch)
      rw [hpending]
      exact Option.some_ne_none _

/-- The process goes on, past `recover`. -/
theorem Frame.kept_up (f : Frame root p q) (h : Kept root p) {installing : Installing Build}
    {watch : Watch} (hproc : q.1.proc = some ⟨true, installing, watch⟩)
    (hstage : StageOk root q.1.disk q.2 installing) (hscripts : q.1.scripts = p.1.scripts)
    (htouching : ∀ proc, p.1.proc = some proc → proc.installing.touching = true →
      installing.touching = true) : Kept root q := by
  refine f.kept h ?_ ?_ (hscripts ▸ h.scripts) ?_
  · rintro installing' watch' hproc'
    rw [hproc] at hproc'
    cases hproc'
  · rintro proc hproc'
    rw [hproc] at hproc'
    cases hproc'
    exact hstage
  · exact fun _ proc hproc' htouch => ⟨_, hproc, htouching proc hproc' htouch⟩

theorem Kept.of_no_marker {installing : Installing Build} {watch : Watch} (h : Kept root p)
    (hmarker : q.1.disk.pending = none) (hproc : q.1.proc = some ⟨true, installing, watch⟩)
    (hstage : StageOk root q.1.disk q.2 installing) (hscripts : q.1.scripts = p.1.scripts) :
    Kept root q := by
  refine ⟨?_, ?_, hscripts ▸ h.scripts, ?_⟩
  · rintro installing' watch' hproc'
    rw [hproc] at hproc'
    cases hproc'
  · rintro proc hproc'
    rw [hproc] at hproc'
    cases hproc'
    exact hstage
  · intro pending hpending
    rw [hmarker] at hpending
    cases hpending

variable {target : Path}

theorem files_write (disk : Disk Build) (houtside : ¬ Aside root target) (build : Option Build)
    (path : Path) (haside : Aside root path) :
    (disk.write target build).files path = disk.files path := by
  refine Function.update_of_ne ?_ _ _
  rintro rfl
  exact houtside haside

theorem recover_frame (io : RecoverIo Build)
    (hvalid : ∀ pending, disk.pending = some pending → Valid root pending) :
    (∀ path, Aside root path → (disk.recover io).1.files path = disk.files path) ∧
      (∀ pending, (disk.recover io).1.pending = some pending → disk.pending = some pending) ∧
      ((disk.recover io).1.healthy = true → disk.healthy = true) := by
  cases hpending : disk.pending with
  | none =>
    have hnothing : disk.recover io = (disk, .ok .none) := by simp only [Disk.recover, hpending]
    rw [hnothing]
    exact ⟨fun _ _ => rfl, fun _ h => hpending ▸ h, id⟩
  | some pending =>
    have hwrite := files_write disk (hvalid pending hpending).target_outside
    simp only [Disk.recover, hpending]
    split
    · refine ⟨fun path _ => by rw [Disk.files_removePending], fun other hother => ?_, ?_⟩
      · exact hpending ▸ Disk.pending_removePending _ hother
      · rw [Disk.healthy_removePending]
        exact id
    split
    · split
      · refine ⟨fun path _ => by rw [Disk.files_removePending]; rfl, fun other hother => ?_, ?_⟩
        · have hmarker : (disk.recordFailure pending).pending = some other :=
            Disk.pending_removePending _ hother
          exact hpending ▸ hmarker
        · rw [Disk.healthy_removePending]
          exact id
      · exact ⟨fun _ _ => rfl, fun _ h => hpending ▸ h, id⟩
    split
    · exact ⟨fun _ _ => rfl, fun _ h => hpending ▸ h, id⟩
    split
    · exact ⟨hwrite _, fun _ h => hpending ▸ h, id⟩
    · -- the state is the last thing that is written
      split
      all_goals
        refine ⟨fun path haside => ?_, fun other hother => ?_, fun hhealthy => ?_⟩
        · simpa [Disk.recordFailure] using hwrite _ path haside
        · have hmarker := Disk.pending_removePending _ hother
          rw [Disk.pending_removeHealthy] at hmarker
          exact hpending ▸ hmarker
        · have hmarker : (Disk.removeHealthy _ io.healthyRemoved).healthy = true :=
            (Disk.healthy_removePending _).symm.trans hhealthy
          have hbefore : (disk.write pending.target _).healthy = true :=
            Disk.healthy_removeHealthy _ hmarker
          exact hbefore

/-- The history of a step that is about the last install but not about its marker. -/
theorem Frame.of_onInstall {s s' : State Build} {h : History Build}
    {f : Install Build → Install Build}
    (hfiles : ∀ path, Aside root path → s'.disk.files path = s.disk.files path)
    (hmarker : ∀ pending, s'.disk.pending = some pending → s.disk.pending = some pending)
    (hf : ∀ i, (f i).pending = i.pending ∧ (f i).copy = i.copy ∧
      (s'.disk.healthy = true →
        s.disk.healthy = true ∧ (f i).vouched = i.vouched ∨ (f i).vouched = true)) :
    Frame root (s, h) (s', h.onInstall f) := by
  refine ⟨hfiles, rfl, hmarker, fun i hi => ?_⟩
  obtain ⟨hpending, hcopy, hvouched⟩ := hf i
  refine ⟨f i, ?_, hpending, hcopy, hvouched⟩
  change h.install = some i at hi
  simp only [History.onInstall, hi, Option.map_some]

theorem Frame.of_same {s s' : State Build} {h : History Build}
    (hfiles : ∀ path, Aside root path → s'.disk.files path = s.disk.files path)
    (hmarker : ∀ pending, s'.disk.pending = some pending → s.disk.pending = some pending)
    (hhealthy : s'.disk.healthy = true → s.disk.healthy = true) :
    Frame root (s, h) (s', h) :=
  ⟨hfiles, rfl, hmarker, fun i hi => ⟨i, hi, rfl, rfl, fun hnow => .inl ⟨hhealthy hnow, rfl⟩⟩⟩

theorem backup_eq_ok {previous : Path} {copied : Except (Option Build) Unit}
    (houtside : ¬ Aside root target) (h : disk.backup root target copied = (disk', .ok previous)) :
    (fileName target).isSome = true ∧ Aside root previous ∧
      (disk'.files previous).isSome = true := by
  unfold Disk.backup at h
  split at h
  · cases h
  · next name hname =>
    have haside : Aside root (Disk.previousDir root ++ [name]) := List.dropLast_concat
    simp only at h
    split at h
    · next hself => exact absurd (hself ▸ haside) houtside
    · split at h
      · cases h
      · next build _ =>
        cases h
        refine ⟨by rw [hname]; rfl, haside, ?_⟩
        simp [Disk.write]
      · cases h

theorem backup_markers {copied : Except (Option Build) Unit} {result : Except InstallError Path}
    (h : disk.backup root target copied = (disk', result)) :
    disk'.pending = disk.pending ∧ disk'.healthy = disk.healthy := by
  unfold Disk.backup at h
  split at h
  · cases h
    exact ⟨rfl, rfl⟩
  · simp only at h
    split at h
    · cases h
      exact ⟨rfl, rfl⟩
    · split at h <;> cases h <;> exact ⟨rfl, rfl⟩

theorem valid_pending {plan : Plan} {version : String} {epoch : Nat} {previous : Path}
    (houtside : ¬ Aside root target) (hnamed : (fileName target).isSome = true)
    (haside : Aside root previous) : Valid root (plan.pending version epoch target previous) := by
  cases plan <;> exact ⟨houtside, hnamed, previous, rfl, haside⟩

theorem kept_step {files : Path → Option Build} {l : Label Build} (h : Kept root p)
    (hg : Guarded root p l) (hs : (updateHistory root files).step p l = some q) : Kept root q := by
  obtain ⟨s, hist⟩ := p
  obtain ⟨s', hist'⟩ := q
  obtain ⟨hstep, hrecord⟩ := Machine.step_withHistory_eq_some.mp hs
  change s.step root l = some s' at hstep
  change hist' = History.record s l s' hist at hrecord
  subst hrecord
  -- there is only one process whose install thread may be between its backup and its marker
  have hstays : ∀ {proc : Proc Build} {installing : Installing Build}, s.proc = some proc →
      (proc.installing.touching = true → installing.touching = true) →
      ∀ proc', s.proc = some proc' → proc'.installing.touching = true →
        installing.touching = true := by
    intro proc installing hproc hgoes proc' hproc' htouch
    rw [hproc] at hproc'
    cases hproc'
    exact hgoes htouch
  have hsteps := State.steps_of_step hstep
  cases hsteps with
  | start hproc hexe =>
    refine Frame.kept (p := (s, hist)) (Frame.of_onInstall (fun _ _ => rfl) (fun _ hp => hp)
      fun i => ?_) h ?_ ?_ h.scripts ?_
    · exact ⟨rfl, rfl, fun hnow => .inl ⟨hnow, rfl⟩⟩
    · rintro _ _ ⟨⟩
      rfl
    · rintro _ ⟨⟩
      trivial
    · intro _ proc hproc'
      rw [hproc] at hproc'
      cases hproc'
  | @recover io installing watch hproc =>
    obtain rfl := h.starting_idle installing watch hproc
    have hvalid : ∀ pending, s.disk.pending = some pending → Valid root pending := by
      intro pending hpending
      obtain ⟨i, -, -, hvalid, -⟩ := h.marker pending hpending
      exact hvalid
    obtain ⟨hfiles, hmarker, hhealthy⟩ := recover_frame io hvalid
    exact Frame.kept_up (p := (s, hist)) (Frame.of_same hfiles hmarker hhealthy) h rfl trivial rfl
      (hstays hproc id)
  | @backup plan target previous copied watch disk hproc hbackup =>
    obtain ⟨hnamed, haside, hsome⟩ := backup_eq_ok hg.1 hbackup
    obtain ⟨hpending, hhealthy⟩ := backup_markers hbackup
    refine ⟨?_, ?_, h.scripts, fun pending hmarker => ?_⟩
    · rintro _ _ ⟨⟩
    · rintro _ ⟨⟩
      exact ⟨hg.1, hnamed, haside, rfl, hsome⟩
    · -- the copy is replaced; the thread goes on to replace the marker
      obtain ⟨i, hi, hsame, hvalid, hvouched, -⟩ := h.marker pending (hpending ▸ hmarker)
      exact ⟨i, hi, hsame, hvalid, fun hnow => hvouched (hhealthy ▸ hnow), .inr ⟨_, rfl, rfl⟩⟩
  | @backupFails plan target copied watch disk error hproc hbackup =>
    have hnone : disk.pending = none :=
      (backup_markers hbackup).1.trans (hg.2 (by rw [hbackup]; rfl))
    have hrecord : History.record s (.backup plan target copied) { s with disk } hist = hist := by
      simp only [History.record, hproc]
    rw [hrecord]
    exact h.of_no_marker hnone hproc trivial rfl
  | @writePending version epoch plan target previous watch hproc =>
    obtain ⟨houtside, hnamed, haside, hcopy, hsome⟩ := h.stage _ hproc
    have hvalid := @valid_pending root target plan version epoch previous houtside hnamed haside
    have hprevious : (plan.pending version epoch target previous).previous = some previous := by
      cases plan <;> rfl
    refine ⟨?_, ?_, h.scripts, fun pending hmarker => ?_⟩
    · rintro _ _ ⟨⟩
    · rintro _ ⟨⟩
      exact hvalid
    · obtain rfl := Option.some.inj hmarker
      refine ⟨_, rfl, rfl, hvalid, fun hnow => ?_, .inl ⟨hsome, ?_⟩⟩
      · exact absurd (hnow.symm.trans hg) (by decide)
      · exact (congrArg (·.bind s.disk.files) hprevious).trans hcopy
  | @writeFails version epoch plan target previous watch hproc =>
    have hnone : s.disk.pending = none := hg
    exact h.of_no_marker hnone rfl trivial rfl
  | @replaceFile staged pending watch hproc =>
    have hvalid : Valid root pending := h.stage _ hproc
    refine Frame.kept_up (p := (s, hist)) (Frame.of_onInstall
      (files_write _ hvalid.target_outside _) (fun _ hp => hp) fun i => ?_) h rfl trivial rfl
      (hstays hproc (fun htouch => nomatch htouch))
    exact ⟨rfl, rfl, fun hnow => .inl ⟨hnow, rfl⟩⟩
  | @replaceFails replaced removed pending watch hproc =>
    have hvalid : Valid root pending := h.stage _ hproc
    refine Frame.kept_up (p := (s, hist)) (Frame.of_same ?_ ?_ ?_) h rfl trivial rfl
      (hstays hproc (fun htouch => nomatch htouch))
    · intro path haside
      simp only [Disk.files_removePending]
      split
      · exact files_write _ hvalid.target_outside _ path haside
      · rfl
    · intro other hother
      have hmarker := Disk.pending_removePending _ hother
      split at hmarker <;> exact hmarker
    · simp only [Disk.healthy_removePending]
      split <;> exact id
  | @spawnScript staged ok pending watch hproc =>
    have hvalid : Valid root pending := h.stage _ hproc
    refine Frame.kept_up (p := (s, hist)) (Frame.of_same (fun _ _ => rfl) (fun _ hp => hp) id) h
      rfl ?_ rfl (hstays hproc (fun htouch => nomatch htouch))
    cases ok
    · trivial
    · exact hvalid
  | @scriptSwaps i swap hscript =>
    have hvalid := h.scripts swap (List.mem_of_getElem? hscript)
    have hfiles := files_write s.disk hvalid.target_outside (some swap.build)
    refine Frame.kept (p := (s, hist))
      (Frame.of_onInstall hfiles (fun _ hp => hp) fun i => ?_) h h.starting_idle
      (fun proc hproc => (h.stage proc hproc).of_files hfiles rfl)
      (fun other hother => h.scripts other (List.mem_of_mem_eraseIdx hother))
      fun _ proc hproc htouch => ⟨proc, hproc, htouch⟩
    exact ⟨rfl, rfl, fun hnow => .inl ⟨hnow, rfl⟩⟩
  | @scriptFails i leftover swap hscript =>
    have hvalid := h.scripts swap (List.mem_of_getElem? hscript)
    have hfiles := files_write s.disk hvalid.target_outside leftover
    exact Frame.kept (p := (s, hist)) (Frame.of_same hfiles (fun _ hp => hp) id) h
      h.starting_idle (fun proc hproc => (h.stage proc hproc).of_files hfiles rfl)
      (fun other hother => h.scripts other (List.mem_of_mem_eraseIdx hother))
      fun _ proc hproc htouch => ⟨proc, hproc, htouch⟩
  | markHealthy hproc =>
    refine Frame.kept_up (p := (s, hist)) (Frame.of_onInstall (fun _ _ => rfl) (fun _ hp => hp)
      fun i => ?_) h rfl ((h.stage _ hproc).of_files (fun _ _ => rfl) rfl) rfl (hstays hproc id)
    exact ⟨rfl, rfl, fun _ => .inr rfl⟩
  | markFails hproc =>
    exact Frame.kept_up (p := (s, hist)) (Frame.of_same (fun _ _ => rfl) (fun _ hp => hp) id) h
      rfl (h.stage _ hproc) rfl (hstays hproc id)
  | clearPending hproc =>
    exact h.of_no_marker rfl rfl ((h.stage _ hproc).of_files (fun _ _ => rfl) rfl) rfl
  | clearFails hproc =>
    exact Frame.kept_up (p := (s, hist)) (Frame.of_same (fun _ _ => rfl) (fun _ hp => hp) id) h
      rfl (h.stage _ hproc) rfl (hstays hproc id)
  | @confirm running ok installing pending hproc =>
    obtain ⟨state, hstate⟩ : ∃ state,
        (if ok then s.disk.confirm running pending else s.disk) = { s.disk with state } := by
      cases ok with
      | true => exact s.disk.confirm_eq running pending
      | false => exact ⟨s.disk.state, rfl⟩
    rw [hstate]
    exact Frame.kept_up (p := (s, hist)) (Frame.of_same (fun _ _ => rfl) (fun _ hp => hp) id) h
      rfl ((h.stage _ hproc).of_files (fun _ _ => rfl) rfl) rfl (hstays hproc id)
  | @die proc hproc =>
    refine Frame.kept (p := (s, hist)) (Frame.of_onInstall (fun _ _ => rfl) (fun _ hp => hp)
      fun i => ?_) h ?_ ?_ ?_ ?_
    · exact ⟨rfl, rfl, fun hnow => .inl ⟨hnow, rfl⟩⟩
    · rintro _ _ ⟨⟩
    · rintro _ ⟨⟩
    · have hstage := h.stage proc hproc
      intro swap hswap
      split at hswap
      · next spawned hspawned =>
        rw [hspawned] at hstage
        obtain hbefore | hnew := List.mem_append.mp hswap
        · exact h.scripts swap hbefore
        · obtain rfl := List.mem_singleton.mp hnew
          exact hstage
      · exact h.scripts swap hswap
    · -- an apply that has made its backup is not cut short while a marker stands
      intro hmarker proc' hproc' htouch
      rw [hproc] at hproc'
      cases hproc'
      obtain ⟨recovered, installing, watch⟩ := proc
      cases installing with
      | backedUp =>
        simp only [Guarded, hproc] at hg
        exact absurd hg hmarker
      | idle | applied | marked | spawned => cases htouch

end Frame

section Undoing

variable {p : State Build × History Build}

theorem recover_restored {pending : PendingInstall} {copy : Build}
    (hpending : disk.pending = some pending) (hhealthy : disk.healthy = false)
    (hcopy : pending.previous.bind disk.files = some copy)
    (hnamed : (fileName pending.target).isSome = true) {io : RecoverIo Build}
    (hrestored : io.restored = true) (hrecorded : io.recorded = true) :
    (disk.recover io).2 = .ok (.restored pending.version pending.epoch pending.target) ∧
      (disk.recover io).1.files pending.target = some copy ∧
      (disk.recover io).1.state.failedVersion = some pending.version ∧
      (disk.recover io).1.state.failedEpoch = pending.epoch := by
  have hname : (fileName pending.target).isNone = false := by
    rw [Option.isNone_eq_false_iff, hnamed]
  have hrecover : disk.recover io =
      ((((disk.write pending.target (some copy)).removeHealthy io.healthyRemoved).removePending
        io.pendingRemoved).recordFailure pending,
        .ok (.restored pending.version pending.epoch pending.target)) := by
    simp [Disk.recover, hpending, hhealthy, hcopy, hname, hrestored, hrecorded]
  rw [hrecover]
  refine ⟨rfl, ?_, rfl, rfl⟩
  simp [Disk.recordFailure, Disk.write]

variable {root} in
theorem Kept.undone (h : Kept root p) : Undone p := by
  rintro i ⟨installing, watch, hproc⟩ hi hpending - - hvouched io hrestored hrecorded
  obtain ⟨i', hi', -, hvalid, hhealthy, hcopy⟩ := h.marker i.pending hpending
  obtain rfl := Option.some.inj (hi.symm.trans hi')
  -- a process that has not run `recover` is not installing anything
  have hkept : CopyKept p.1.disk i := by
    obtain hkept | ⟨proc, hproc', htouch⟩ := hcopy
    · exact hkept
    · rw [hproc] at hproc'
      cases hproc'
      obtain rfl := h.starting_idle installing watch hproc
      cases htouch
  have hunhealthy : p.1.disk.healthy = false := by
    by_contra hnow
    have hmarked := hhealthy (by simpa using hnow)
    rw [hvouched] at hmarked
    cases hmarked
  obtain ⟨hsome, hfiles⟩ := hkept
  obtain ⟨copy, hcopy⟩ := Option.isSome_iff_exists.mp hsome
  obtain ⟨hresult, htarget, hfailed⟩ := recover_restored hpending hunhealthy
    (hfiles.trans hcopy) hvalid.target_named hrestored hrecorded
  exact ⟨hresult, ⟨copy, hcopy, htarget⟩, hfailed⟩

theorem kept_init (files : Path → Option Build) : Kept root (updateHistory root files).init := by
  refine ⟨?_, ?_, ?_, ?_⟩
  · rintro _ _ ⟨⟩
  · rintro _ ⟨⟩
  · exact fun swap hswap => absurd hswap List.not_mem_nil
  · rintro _ ⟨⟩

/-- An apply that has made its backup goes through, and what it put in place is started. -/
def firstStart (version : String) (epoch : Nat) (staged : Build) (target : Path) :
    List (Label Build) :=
  [.writePending version epoch true, .replaceFile staged, .die, .start target]

/-- That start ends before it has run `recover`, and there is another one. -/
def secondStart (version : String) (epoch : Nat) (staged : Build) (target : Path) :
    List (Label Build) :=
  firstStart version epoch staged target ++ [.die, .start target]

def startedState (s : State Build) (version : String) (epoch : Nat) (staged : Build)
    (target previous : Path) : State Build where
  disk :=
    { s.disk with
      files := Function.update s.disk.files target (some staged)
      pending := some (Plan.appImage.pending version epoch target previous) }
  proc := some ⟨false, .idle, .waiting⟩
  scripts := s.scripts

variable {root} {files : Path → Option Build} {target previous : Path} {watch : Watch}
  {version : String} {epoch : Nat} {staged : Build}

theorem exec_firstStart
    (hproc : p.1.proc = some ⟨true, .backedUp .appImage target previous, watch⟩) :
    (updateHistory root files).exec p (firstStart version epoch staged target) =
      some (startedState p.1 version epoch staged target previous, ⟨p.2.copied,
        some ⟨Plan.appImage.pending version epoch target previous, p.2.copied, true, true, false,
          false⟩⟩) := by
  obtain ⟨⟨disk, proc, scripts⟩, hist⟩ := p
  obtain rfl : proc = some ⟨true, .backedUp .appImage target previous, watch⟩ := hproc
  have htarget : (Plan.appImage.pending version epoch target previous).target = target := rfl
  simp [firstStart, Machine.exec, updateHistory, updates, Machine.withHistory, State.step,
    State.withProc, Disk.write, History.record, History.onInstall, startedState, htarget]

theorem exec_secondStart
    (hproc : p.1.proc = some ⟨true, .backedUp .appImage target previous, watch⟩) :
    (updateHistory root files).exec p (secondStart version epoch staged target) =
      some (startedState p.1 version epoch staged target previous, ⟨p.2.copied,
        some ⟨Plan.appImage.pending version epoch target previous, p.2.copied, true, true, true,
          false⟩⟩) := by
  have htarget : (Plan.appImage.pending version epoch target previous).target = target := rfl
  rw [secondStart, Machine.exec_append, exec_firstStart hproc]
  simp [Machine.exec, updateHistory, updates, Machine.withHistory, State.step, State.withProc,
    History.record, History.onInstall, startedState, htarget]

/-- **A broken update is undone** in every history whose applies are guarded; and an apply over an
old healthy marker can always be followed by a start that does not undo it. -/
theorem undone_of_guarded (root : Path) (files : Path → Option Build) :
    (∀ ls p, (updateHistory root files).Along (Guarded root) (updateHistory root files).init ls →
      (updateHistory root files).exec (updateHistory root files).init ls = some p → Undone p) ∧
    ∀ ls p, (updateHistory root files).exec (updateHistory root files).init ls = some p →
      ∀ target previous watch, p.1.proc = some ⟨true, .backedUp .appImage target previous, watch⟩ →
        p.1.disk.healthy = true → ∀ version epoch staged,
          ∃ q, (updateHistory root files).exec p (secondStart version epoch staged target) =
            some q ∧ ¬ Undone q := by
  constructor
  · intro ls p halong hrun
    have hkept : Kept root p := Machine.invariant (kept_init root files)
      (fun s l s' hs hg hstep => kept_step hs hg hstep) halong hrun
    exact hkept.undone
  · intro ls p _ target previous watch hproc hhealthy version epoch staged
    refine ⟨_, exec_secondStart hproc, fun hundone => ?_⟩
    obtain ⟨hresult, -⟩ := hundone _ ⟨_, _, rfl⟩ rfl rfl rfl rfl rfl
      ⟨true, none, true, true, true⟩ rfl rfl
    -- the old marker is taken for one of this install
    simp [Disk.recover, startedState, hhealthy] at hresult

end Undoing

def updatesDir : Path := ["home", "ana", ".goble", "updates"]

/-- and there is one AppImage. -/
def appImage : Path := ["home", "ana", "Goble.AppImage"]

def firstVersion (path : Path) : Option String := if path = appImage then some "0.1.0" else none

def allOk : RecoverIo String := ⟨true, none, true, true, true⟩

/-- The first version is started and makes a backup for an update. -/
def upToBackup : List (Label String) :=
  [.start appImage, .recover allOk, .backup .appImage appImage (.ok ())]

/-- The same, after it has stayed up long enough. -/
def confirmedUpToBackup : List (Label String) :=
  [.start appImage, .recover allOk, .markHealthy true, .clearPending true, .confirm "0.1.0" true,
    .backup .appImage appImage (.ok ())]

/-- The first update ever, and its first start ends before `recover`. -/
theorem undone_firstUpdate :
    ∃ p, (updateHistory updatesDir firstVersion).exec (updateHistory updatesDir firstVersion).init
        (upToBackup ++ secondStart "0.2.0" 7 "0.2.0" appImage) = some p ∧
      (p.1.disk.recover allOk).2 = .ok (.restored "0.2.0" 7 appImage) ∧
      (p.1.disk.recover allOk).1.files appImage = some "0.1.0" ∧
      (p.1.disk.recover allOk).1.state.failedVersion = some "0.2.0" := by
  refine ⟨_, rfl, ?_⟩
  have hundone := (undone_of_guarded updatesDir firstVersion).1
    (upToBackup ++ secondStart "0.2.0" 7 "0.2.0" appImage) _ (by decide) rfl
  obtain ⟨hresult, ⟨copy, hcopy, hfile⟩, hversion, -⟩ :=
    hundone _ ⟨_, _, rfl⟩ rfl rfl rfl rfl rfl allOk rfl rfl
  cases hcopy
  exact ⟨hresult, hfile, hversion⟩

/-- The first version was confirmed, and its healthy marker vouches for the second one. -/
theorem not_undone :
    ∃ p, (updateHistory updatesDir firstVersion).exec (updateHistory updatesDir firstVersion).init
        (confirmedUpToBackup ++ secondStart "0.2.0" 7 "0.2.0" appImage) = some p ∧
      (p.1.disk.recover allOk).2 = .ok .none ∧ ¬ Undone p := by
  refine ⟨_, rfl, rfl, fun hundone => ?_⟩
  obtain ⟨hresult, -⟩ := hundone _ ⟨_, _, rfl⟩ rfl rfl rfl rfl rfl allOk rfl rfl
  cases hresult

/-! ### The first start -/

/-- An apply writes its marker while there is a healthy one. -/
def Vouched (p : State Build × History Build) (l : Label Build) : Prop :=
  match l with
  | .writePending _ _ true => p.1.disk.healthy = true
  | _ => True

section FirstStart

variable {root} {p q : State Build × History Build}

/-- What stands as pending stands beside a healthy marker. -/
def Accepted (disk : Disk Build) : Prop := disk.pending ≠ none → disk.healthy = true

/-- With a healthy marker `recover` at most removes the pending one. -/
theorem recover_accepted (h : Accepted disk) (io : RecoverIo Build) :
    (disk.recover io).2 = .ok .none ∧ Accepted (disk.recover io).1 := by
  cases hpending : disk.pending with
  | none =>
    have hrecover : disk.recover io = (disk, .ok .none) := by simp only [Disk.recover, hpending]
    rw [hrecover]
    exact ⟨rfl, h⟩
  | some pending =>
    have hhealthy : disk.healthy = true := h (by rw [hpending]; exact Option.some_ne_none _)
    have hrecover : disk.recover io = (disk.removePending io.pendingRemoved, .ok .none) := by
      simp [Disk.recover, hpending, hhealthy]
    rw [hrecover]
    exact ⟨rfl, fun _ => by rw [Disk.healthy_removePending, hhealthy]⟩

/-- Files have no part in it. -/
theorem Accepted.of_markers (h : Accepted disk)
    (hpending : disk'.pending ≠ none → disk.pending ≠ none)
    (hhealthy : disk'.healthy = disk.healthy) : Accepted disk' :=
  fun hmarker => hhealthy.trans (h (hpending hmarker))

theorem accepted_step {files : Path → Option Build} {l : Label Build} (h : Accepted p.1.disk)
    (hv : Vouched p l) (hs : (updateHistory root files).step p l = some q) :
    Accepted q.1.disk := by
  obtain ⟨hstep, -⟩ := Machine.step_withHistory_eq_some.mp hs
  obtain ⟨s, hist⟩ := p
  obtain ⟨s', hist'⟩ := q
  have hsteps := State.steps_of_step hstep
  have hback : ∀ {target : Path} {copied : Except (Option Build) Unit} {disk : Disk Build}
      {result : Except InstallError Path}, s.disk.backup root target copied = (disk, result) →
      Accepted disk := by
    intro target copied disk result hbackup
    obtain ⟨hpending, hhealthy⟩ := backup_markers hbackup
    exact h.of_markers (by rw [hpending]; exact id) hhealthy
  cases hsteps with
  | start | writeFails | spawnScript | markFails | clearFails | die => exact h
  | recover hproc => exact (recover_accepted h _).2
  | backup hproc hbackup => exact hback hbackup
  | backupFails hproc hbackup => exact hback hbackup
  | writePending hproc => exact fun _ => hv
  | replaceFile | scriptSwaps | scriptFails => exact h
  | replaceFails hproc =>
    refine h.of_markers ?_ ?_
    · intro hmarker
      obtain ⟨pending, hpending⟩ := Option.ne_none_iff_exists'.mp hmarker
      have hbefore := Disk.pending_removePending _ hpending
      split at hbefore
      · exact Option.ne_none_iff_exists'.mpr ⟨pending, hbefore⟩
      · exact Option.ne_none_iff_exists'.mpr ⟨pending, hbefore⟩
    · rw [Disk.healthy_removePending]
      split <;> rfl
  | markHealthy hproc => exact fun _ => rfl
  | clearPending hproc => exact fun hmarker => absurd rfl hmarker
  | @confirm running ok installing pending hproc =>
    cases ok with
    | true =>
      obtain ⟨state, hstate⟩ := s.disk.confirm_eq running pending
      change Accepted (s.disk.confirm running pending)
      rw [hstate]
      exact h
    | false => exact h

/-- **A new build gets its chance** in every history whose applies find a healthy marker; and an
apply without one can always be followed by a first start that undoes it. -/
theorem getsChance_of_vouched (root : Path) (files : Path → Option Build) :
    (∀ ls p, (updateHistory root files).Along Vouched (updateHistory root files).init ls →
      (updateHistory root files).exec (updateHistory root files).init ls = some p →
      GetsChance p) ∧
    ∀ ls p, (updateHistory root files).exec (updateHistory root files).init ls = some p →
      ∀ target previous watch, p.1.proc = some ⟨true, .backedUp .appImage target previous, watch⟩ →
        (fileName target).isSome = true → (p.1.disk.files previous).isSome = true →
        p.1.disk.healthy = false → ∀ version epoch staged,
          ∃ q, (updateHistory root files).exec p (firstStart version epoch staged target) =
            some q ∧ ¬ GetsChance q := by
  constructor
  · intro ls p halong hrun
    have haccepted : Accepted p.1.disk :=
      Machine.invariant (I := fun p => Accepted p.1.disk) (fun hmarker => absurd rfl hmarker)
        (fun s l s' hs hv hstep => accepted_step hs hv hstep) halong hrun
    intro io version epoch target _ hrestored
    rw [(recover_accepted haccepted io).1] at hrestored
    cases hrestored
  · intro ls p _ target previous watch hproc hnamed hcopy hhealthy version epoch staged
    refine ⟨_, exec_firstStart hproc, fun hchance => ?_⟩
    obtain ⟨copy, hcopy⟩ : ∃ copy,
        Function.update p.1.disk.files target (some staged) previous = some copy := by
      by_cases hself : previous = target
      · exact ⟨staged, by rw [hself, Function.update_self]⟩
      · rw [Function.update_of_ne hself]
        exact Option.isSome_iff_exists.mp hcopy
    have hresult := @recover_restored Build
      (startedState p.1 version epoch staged target previous).disk _ copy rfl hhealthy hcopy hnamed
      ⟨true, none, true, true, true⟩ rfl rfl
    obtain ⟨i, hi, -, -, hended⟩ := hchance _ _ _ _ ⟨_, _, rfl⟩ hresult.1
    cases hi
    cases hended

end FirstStart

instance decidableVouched (p : State Build × History Build) :
    ∀ l : Label Build, Decidable (Vouched p l)
  | .writePending _ _ true => inferInstanceAs (Decidable (p.1.disk.healthy = true))
  | .writePending _ _ false | .backup _ _ _ | .die | .start _ | .recover _ | .replaceFile _
  | .replaceFails _ _ | .spawnScript _ _ | .scriptSwaps _ | .scriptFails _ _ | .markHealthy _
  | .clearPending _ | .confirm _ _ => isTrue trivial

/-- After a version that was confirmed. -/
theorem getsChance_secondVersion :
    ∃ p, (updateHistory updatesDir firstVersion).exec (updateHistory updatesDir firstVersion).init
        (confirmedUpToBackup ++ firstStart "0.2.0" 7 "0.2.0" appImage) = some p ∧ GetsChance p := by
  refine ⟨_, rfl, ?_⟩
  exact (getsChance_of_vouched updatesDir firstVersion).1
    (confirmedUpToBackup ++ firstStart "0.2.0" 7 "0.2.0" appImage) _ (by decide) rfl

/-- The first update ever is undone by its own first start. -/
theorem not_getsChance :
    ∃ p, (updateHistory updatesDir firstVersion).exec (updateHistory updatesDir firstVersion).init
        (upToBackup ++ firstStart "0.2.0" 7 "0.2.0" appImage) = some p ∧
      (p.1.disk.recover allOk).2 = .ok (.restored "0.2.0" 7 appImage) ∧ ¬ GetsChance p := by
  refine ⟨_, rfl, rfl, fun hchance => ?_⟩
  obtain ⟨i, hi, -, -, hended⟩ := hchance allOk "0.2.0" 7 appImage ⟨_, _, rfl⟩ rfl
  cases hi
  cases hended

end Goble.Update
