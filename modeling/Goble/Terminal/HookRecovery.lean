import Goble.Terminal.Emulator

/-!
# Envelopes after garbage, and envelopes that are garbage

`hook_stream_round_trip` takes well-formed envelopes between plain texts apart. This is what the
tap does elsewhere.

* `lifts_iff_ground` — after any bytes an envelope is lifted out of the stream just when the tap
  holds nothing back. Otherwise its `ESC` is the byte that breaks what is held, the tap is back
  on the ground only after it (`scan_interrupted`), and the envelope passes through as text.
* `agrees_iff_short` — a body is decoded as `decode_hook` decodes it just when it is below the
  limit. One byte longer, and what is left of the envelope spills into the terminal
  (`scan_spill`).
-/

namespace Goble.Terminal.HookTap

variable (serde : HookJson)

theorem plainText_of_not_mem {text : List UInt8} (h : esc ∉ text) : PlainText text := by
  refine ⟨fun hin => h (hin.subset (by decide)), fun held hpre hne hsuffix => ?_⟩
  obtain ⟨byte, held, rfl⟩ := List.exists_cons_of_ne_nil hne
  obtain ⟨rfl, -⟩ := List.cons_prefix_cons.mp hpre
  exact h (hsuffix.subset List.mem_cons_self)

theorem scan_trailing {text : List UInt8} (h : esc ∉ text) (dropped : Nat) :
    Transducer.run (scan serde) ⟨.ground, dropped⟩ (text ++ stringTerminator) =
      (⟨.ground, dropped⟩, (text ++ stringTerminator).map .byte) := by
  rw [Transducer.run_append, scan_text serde (plainText_of_not_mem h), List.map_append]
  rfl

/-! ### After garbage -/

/-- A tap that holds a beginning back holds at least its escape. -/
def Proper (tap : HookTap) : Prop := tap.state ≠ .prefixed []

variable {tap : HookTap}

theorem proper_scan (h : tap.Proper) (byte : UInt8) :
    (scan serde tap byte).1.Proper := by
  obtain ⟨state, dropped⟩ := tap
  cases state with
  | ground =>
    simp only [scan, step]
    split <;> exact fun hstate => by cases hstate
  | prefixed held =>
    simp only [scan, step]
    split
    · exact fun hstate => by cases hstate
    · split
      · exact fun hstate => by cases hstate
      · exact fun hstate => absurd (State.prefixed.inj hstate) (by simp)
  | body body =>
    simp only [scan, step]
    split
    · split <;> exact fun hstate => by cases hstate
    · split
      · exact fun hstate => by cases hstate
      · split <;> exact fun hstate => by cases hstate

theorem proper_run (h : tap.Proper) (input : List UInt8) :
    (Transducer.run (scan serde) tap input).1.Proper := by
  induction input generalizing tap with
  | nil => exact h
  | cons byte input ih => exact ih (proper_scan serde h byte)

/-- **The start of an envelope breaks what is held back.** Its escape is spent on that, and the
tap is on the ground with the envelope half read. -/
theorem scan_interrupted (hproper : tap.Proper) (h : tap.state ≠ .ground) :
    ∃ (dropped : Nat) (released : List UInt8), Transducer.run (scan serde) tap [esc, 0x50] =
      (⟨.ground, dropped⟩, released.map .byte) := by
  obtain ⟨state, dropped⟩ := tap
  cases state with
  | ground => exact absurd rfl h
  | prefixed held =>
    -- an escape stands only at the beginning of a beginning
    have hbreak : (held ++ [esc]).isPrefixOf prefixBytes = false := by
      refine Bool.eq_false_iff.mpr fun hpre => ?_
      obtain ⟨byte, held, rfl⟩ : ∃ byte rest, held = byte :: rest :=
        List.exists_cons_of_ne_nil fun hnil => hproper (congrArg State.prefixed hnil)
      obtain ⟨-, hrest⟩ := List.cons_prefix_cons.mp (List.isPrefixOf_iff_prefix.mp hpre)
      exact absurd (hrest.subset (List.mem_append_right held List.mem_cons_self)) (by decide)
    refine ⟨dropped, held ++ [esc, 0x50], ?_⟩
    have hfirst : scan serde ⟨.prefixed held, dropped⟩ esc =
        (⟨.ground, dropped⟩, (held ++ [esc]).map .byte) := by
      simp [scan, step, hbreak]
    have hsecond : Transducer.run (scan serde) ⟨.ground, dropped⟩ [0x50] =
        (⟨.ground, dropped⟩, [.byte 0x50]) := rfl
    rw [Transducer.run_cons, hfirst, hsecond]
    simp
  | body body =>
    have hfirst : stringTerminator.isSuffixOf (body ++ [esc]) = false :=
      Bool.eq_false_iff.mpr fun hsuffix => by
        have := (List.isSuffixOf_iff_suffix.mp hsuffix).getLast (by decide)
        simp [stringTerminator, esc] at this
    by_cases hdrop : body.getLast? = some esc ∨ maxBody < (body ++ [esc]).length
    · -- the hook is dropped at the escape
      refine ⟨dropped + 1, [0x50], ?_⟩
      have hstep : scan serde ⟨.body body, dropped⟩ esc = (⟨.ground, dropped + 1⟩, []) := by
        simp only [scan, step, hfirst, Bool.false_eq_true, if_false]
        by_cases hlast : body.getLast? = some esc
        · rw [if_pos ⟨hlast, by decide⟩]
          rfl
        · rw [if_neg fun hand => hlast hand.1, if_pos (hdrop.resolve_left hlast)]
          rfl
      rw [Transducer.run_cons, hstep]
      rfl
    · -- the escape could be that of a terminator: the byte after it says no
      obtain ⟨hlast, hfit⟩ := not_or.mp hdrop
      refine ⟨dropped + 1, [], ?_⟩
      have hstep : scan serde ⟨.body body, dropped⟩ esc =
          (⟨.body (body ++ [esc]), dropped⟩, []) := by
        simp only [scan, step, hfirst, Bool.false_eq_true, if_false, hlast, false_and, hfit]
        rfl
      have hsecond : stringTerminator.isSuffixOf (body ++ [esc] ++ [0x50]) = false :=
        Bool.eq_false_iff.mpr fun hsuffix => by
          have := (List.isSuffixOf_iff_suffix.mp hsuffix).getLast (by decide)
          simp [stringTerminator] at this
      have hstep' : scan serde ⟨.body (body ++ [esc]), dropped⟩ 0x50 =
          (⟨.ground, dropped + 1⟩, []) := by
        simp only [scan, step, hsecond, Bool.false_eq_true, if_false, List.getLast?_concat]
        rfl
      rw [Transducer.run_cons, hstep, Transducer.run_cons, hstep']
      rfl

/-- An envelope that comes while something is held back passes through as text. -/
theorem scan_unlifted (hproper : tap.Proper) (h : tap.state ≠ .ground) {event : HookEvent}
    {envelope : List UInt8} (henc : encodeHook serde event = some envelope) :
    ∃ released : List UInt8,
      (Transducer.run (scan serde) tap envelope).2 = released.map .byte := by
  obtain ⟨json, hjson⟩ : ∃ json, prefixBytes ++ Hex.encode json ++ stringTerminator = envelope := by
    unfold encodeHook at henc
    split at henc
    · next json _ => exact ⟨json, Option.some.inj henc⟩
    · cases henc
  obtain ⟨dropped, released, hstart⟩ := scan_interrupted serde hproper h
  have hrest : esc ∉ [0x24, 0x64] ++ Hex.encode json := by
    intro hmem
    rcases List.mem_append.mp hmem with hmem | hmem
    · exact absurd hmem (by decide)
    · exact absurd (Hex.lt_of_mem_encode hmem) (by decide)
  refine ⟨released ++ ([0x24, 0x64] ++ Hex.encode json ++ stringTerminator), ?_⟩
  have hsplit : envelope =
      [esc, 0x50] ++ ([0x24, 0x64] ++ Hex.encode json ++ stringTerminator) := by
    rw [← hjson]
    rfl
  rw [hsplit, Transducer.run_append, hstart, scan_trailing serde hrest]
  exact List.map_append.symm

def Lifts (b : List UInt8) (event : HookEvent) (envelope : List UInt8) : Prop :=
  let (tap, passed) := (tapOrdered serde (new, []) b).1
  let ((_, passed'), hooks) := tapOrdered serde (tap, passed) envelope
  hooks.map Prod.snd = [event] ∧ ∃ held, held <:+ b ∧ passed' = passed ++ held

theorem not_lifts {b : List UInt8} {event : HookEvent} {envelope : List UInt8}
    (henc : encodeHook serde event = some envelope)
    (h : (tapOrdered serde (new, []) b).1.1.state ≠ .ground) : ¬ Lifts serde b event envelope := by
  have hproper : (tapOrdered serde (new, []) b).1.1.Proper := by
    rw [tapOrdered_eq]
    exact proper_run serde (fun hstate => by cases hstate) b
  rcases hafter : tapOrdered serde (new, []) b with ⟨⟨tap, passed⟩, hooks⟩
  rw [hafter] at hproper h
  obtain ⟨released, hreleased⟩ := scan_unlifted serde hproper h henc
  simp only [Lifts, hafter, tapOrdered_eq, hreleased, hooksFrom_map_byte]
  rintro ⟨hhooks, -⟩
  cases hhooks

/-- **Resynchronisation.** After any bytes `b` the envelope of a hook is lifted out of the stream,
the hook reported and no byte of the envelope passed through, just when the tap is on the ground
after `b`. -/
theorem lifts_iff_ground (b : List UInt8) {event : HookEvent} {envelope : List UInt8}
    (henc : encodeHook serde event = some envelope) (hserde : serde.RoundTrips event)
    (hwf : Segment.WellFormed serde (.hook event)) :
    Lifts serde b event envelope ↔ (tapOrdered serde (new, []) b).1.1.state = .ground := by
  refine ⟨fun hlifts => ?_, fun hground => ?_⟩
  · by_contra hstate
    exact not_lifts serde henc hstate hlifts
  · rcases hafter : tapOrdered serde (new, []) b with ⟨⟨⟨state, dropped⟩, passed⟩, hooks⟩
    rw [hafter] at hground
    obtain rfl : state = .ground := hground
    rw [Lifts, hafter]
    dsimp only
    rw [tapOrdered_eq, scan_envelope serde dropped henc hserde hwf]
    exact ⟨rfl, [], List.nil_suffix, rfl⟩

/-- The hook without a value, after a letter. -/
theorem lifts_clear :
    ∃ envelope, encodeHook clearJson .clear = some envelope ∧
      (Lifts clearJson [0x61] .clear envelope ↔
        (tapOrdered clearJson (new, []) [0x61]).1.1.state = .ground) := by
  refine ⟨_, rfl, lifts_iff_ground clearJson [0x61] rfl ⟨_, rfl, rfl⟩ fun json hjson => ?_⟩
  cases hjson
  decide

/-- After a single escape it passes through as text. -/
theorem not_lifts_clear :
    ∃ envelope, encodeHook clearJson .clear = some envelope ∧ clearJson.RoundTrips .clear ∧
      Segment.WellFormed clearJson (.hook .clear) ∧
      ¬ Lifts clearJson [esc] .clear envelope := by
  refine ⟨_, rfl, ⟨_, rfl, rfl⟩, fun json hjson => ?_, not_lifts clearJson rfl (by decide)⟩
  cases hjson
  decide

/-! ### Bodies of any length -/

theorem scan_overflow {body : List UInt8} {byte : UInt8} (dropped : Nat) (hesc : esc ∉ body)
    (hbyte : ¬ stringTerminator <:+ body ++ [byte]) (hlen : body.length = maxBody) :
    scan serde ⟨.body body, dropped⟩ byte = (⟨.ground, dropped + 1⟩, []) := by
  have hnot : stringTerminator.isSuffixOf (body ++ [byte]) = false :=
    Bool.eq_false_iff.mpr fun h => hbyte (List.isSuffixOf_iff_suffix.mp h)
  have hlast : body.getLast? ≠ some esc := fun hlast => hesc (List.mem_of_getLast? hlast)
  have hover : maxBody < (body ++ [byte]).length := by
    rw [List.length_append, List.length_singleton]
    omega
  simp only [scan, step, hnot, hlast, hover, false_and, if_false, if_true, Bool.false_eq_true]
  rfl

theorem scan_spill {h : List UInt8} (hesc : esc ∉ h) (hlen : maxBody ≤ h.length) (dropped : Nat) :
    Transducer.run (scan serde) ⟨.ground, dropped⟩ (prefixBytes ++ h ++ stringTerminator) =
      (⟨.ground, dropped + 1⟩, ((h ++ stringTerminator).drop (maxBody + 1)).map .byte) := by
  obtain ⟨body, rest, rfl, hbody⟩ : ∃ body rest, h = body ++ rest ∧ body.length = maxBody :=
    ⟨h.take maxBody, h.drop maxBody, (List.take_append_drop _ _).symm, List.length_take_of_le hlen⟩
  have hclean : esc ∉ body := fun hmem => hesc (List.mem_append_left rest hmem)
  -- the body is collected up to the limit
  have hcollect : Transducer.run (scan serde) ⟨.ground, dropped⟩ (prefixBytes ++ body) =
      (⟨.body body, dropped⟩, []) := by
    rw [Transducer.run_append, scan_start,
      scan_body serde [] dropped hclean (Nat.le_of_eq hbody)]
    rfl
  have hdrop : ∀ more : List UInt8, (body ++ more).drop (maxBody + 1) = more.drop 1 := fun more => by
    rw [← hbody, List.drop_append]
    simp
  rw [List.append_assoc body, hdrop, ← List.append_assoc prefixBytes, List.append_assoc _ rest,
    Transducer.run_append, hcollect]
  cases rest with
  | nil =>
    have hterm : ¬ stringTerminator <:+ body ++ [esc] := fun hsuffix => by
      have := hsuffix.getLast (by decide)
      simp [stringTerminator, esc] at this
    rw [List.nil_append, show stringTerminator = [esc, 0x5c] from rfl, Transducer.run_cons,
      scan_overflow serde dropped hclean hterm hbody]
    rfl
  | cons byte rest =>
    have hterm : ¬ stringTerminator <:+ body ++ [byte] := fun hsuffix =>
      hesc (List.append_cons body byte rest ▸ List.mem_append_left rest (hsuffix.subset (by decide)))
    have hrest : esc ∉ rest := fun hmem =>
      hesc (List.mem_append_right body (List.mem_cons_of_mem byte hmem))
    rw [List.cons_append, Transducer.run_cons, scan_overflow serde dropped hclean hterm hbody,
      scan_trailing serde hrest]
    rfl

theorem scan_short {h : List UInt8} (hesc : esc ∉ h) (hlen : h.length < maxBody) (dropped : Nat) :
    Transducer.run (scan serde) ⟨.ground, dropped⟩ (prefixBytes ++ h ++ stringTerminator) =
      match decodeHook serde h with
      | .ok event => (⟨.ground, dropped⟩, [.hook event])
      | .error _ => (⟨.ground, dropped + 1⟩, []) := by
  rw [List.append_assoc, Transducer.run_append, scan_start, Transducer.run_append,
    scan_body serde [] dropped hesc (Nat.le_of_lt hlen), List.nil_append,
    scan_terminator serde dropped hesc hlen]
  rfl

/-- The tap, fed an envelope with the body `h` in some chunks, does with it what `decode_hook`
says: it reports the hook, or counts one drop, and passes nothing through. -/
def Agrees (h : List UInt8) (chunks : List (List UInt8)) : Prop :=
  let ((tap, passed), hooks) := Transducer.runChunks (step serde) (new, []) chunks
  passed = [] ∧
    match decodeHook serde h with
    | .ok event => hooks.map Prod.snd = [event] ∧ tap.dropped = 0
    | .error _ => hooks = [] ∧ tap.dropped = 1

theorem runChunks_new (chunks : List (List UInt8)) :
    Transducer.runChunks (step serde) (new, []) chunks =
      let (tap, syms) := Transducer.run (scan serde) new chunks.flatten
      ((tap, bytesOf syms), hooksFrom 0 syms) := by
  rw [Transducer.runChunks_eq]
  exact (tapOrdered_eq serde new [] chunks.flatten).trans (by simp)

theorem disagrees_of_le {h : List UInt8} (hesc : esc ∉ h) (hlen : maxBody ≤ h.length)
    {chunks : List (List UInt8)}
    (hchunks : chunks.flatten = prefixBytes ++ h ++ stringTerminator) :
    ¬ Agrees serde h chunks := by
  rw [Agrees, runChunks_new, hchunks, show new = ⟨.ground, 0⟩ from rfl, scan_spill serde hesc hlen]
  rintro ⟨hpassed, -⟩
  rw [bytesOf_map_byte, List.drop_eq_nil_iff, List.length_append] at hpassed
  have : stringTerminator.length = 2 := rfl
  omega

/-- **The two decoders.** Whatever the chunks, the tap and `decode_hook` agree on an envelope just
when its body is below the limit. -/
theorem agrees_iff_short {h : List UInt8} (hesc : esc ∉ h) {chunks : List (List UInt8)}
    (hchunks : chunks.flatten = prefixBytes ++ h ++ stringTerminator) :
    Agrees serde h chunks ↔ h.length < maxBody := by
  refine ⟨fun hagrees => ?_, fun hlen => ?_⟩
  · by_contra hlong
    exact disagrees_of_le serde hesc (Nat.le_of_not_lt hlong) hchunks hagrees
  · rw [Agrees, runChunks_new, hchunks, show new = ⟨.ground, 0⟩ from rfl,
      scan_short serde hesc hlen]
    cases decodeHook serde h with
    | ok event => exact ⟨rfl, rfl, rfl⟩
    | error e => exact ⟨rfl, rfl, rfl⟩

/-- A body that is not hexadecimal, cut in the middle. -/
theorem agrees_bad_hex :
    Agrees clearJson [0x7a, 0x7a] [prefixBytes ++ [0x7a], [0x7a] ++ stringTerminator] ↔
      [0x7a, 0x7a].length < maxBody :=
  agrees_iff_short clearJson (by decide) (by decide)

/-- A body as long as the limit allows. -/
theorem not_agrees_limit :
    esc ∉ List.replicate maxBody 0x30 ∧ (List.replicate maxBody (0x30 : UInt8)).length ≤ maxBody ∧
      ¬ Agrees clearJson (List.replicate maxBody 0x30)
        [prefixBytes ++ List.replicate maxBody 0x30 ++ stringTerminator] := by
  have hesc : esc ∉ List.replicate maxBody (0x30 : UInt8) := fun hmem =>
    absurd (List.eq_of_mem_replicate hmem) (by decide)
  have hlen := List.length_replicate (n := maxBody) (a := (0x30 : UInt8))
  exact ⟨hesc, Nat.le_of_eq hlen, disagrees_of_le clearJson hesc (Nat.le_of_eq hlen.symm)
    List.flatten_singleton⟩

end Goble.Terminal.HookTap
