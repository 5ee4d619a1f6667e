import Goble.Terminal.Hooks
import Goble.Terminal.ImageBytes

/-!
# What the image tap makes of one piece

The screen gets its bytes in the pieces that the hook tap releases: nothing, a byte, or the bytes
it held back for an envelope that did not come (`HookTap.released`). Of none of them does a call
of the image tap make two chunks (`ImageTap.Atomic`), and what a piece adds to the chunks of a
call does not depend on those before it (`ImageTap.Emits`).
-/

namespace Goble.Terminal

/-! ### What a piece adds to a call -/

/-- What some input adds to the chunks of a call. -/
inductive Emission where
  | nothing
  /-- Bytes that join the chunk of bytes before them. -/
  | join (bytes : List UInt8)
  | push (chunk : ImageChunk)

def Emission.onto (out : List ImageChunk) : Emission → List ImageChunk
  | .nothing => out
  | .join bytes => ImageTap.pushBytes out bytes
  | .push chunk => out ++ [chunk]

/-- It adds no chunk that would stand apart. -/
def Emission.IsText (e : Emission) : Prop := e = .nothing ∨ ∃ bytes, e = .join bytes

namespace ImageTap

theorem pushBytes_append (out : List ImageChunk) (xs ys : List UInt8) :
    pushBytes (out ++ [.bytes xs]) ys = out ++ [.bytes (xs ++ ys)] := by
  induction out with
  | nil => rfl
  | cons chunk out ih =>
    obtain ⟨next, rest, hout⟩ : ∃ next rest, out ++ [.bytes xs] = next :: rest :=
      List.exists_cons_of_ne_nil (List.append_ne_nil_of_right_ne_nil _ (List.cons_ne_nil _ _))
    rw [List.cons_append, hout, pushBytes, ← hout, ih]
    rfl

theorem pushBytes_apart {out : List ImageChunk} (h : ∀ xs, out.getLast? ≠ some (.bytes xs))
    (bytes : List UInt8) : pushBytes out bytes = out ++ [.bytes bytes] := by
  fun_induction pushBytes out bytes with
  | case1 existing bytes => exact absurd rfl (h existing)
  | case2 chunk next out bytes ih =>
    rw [ih]
    · rfl
    · simpa only [List.getLast?_cons_cons] using h
  | case3 out bytes => rfl

theorem pushBytes_pushBytes (out : List ImageChunk) (xs ys : List UInt8) :
    pushBytes (pushBytes out xs) ys = pushBytes out (xs ++ ys) := by
  by_cases hlast : ∃ init bytes, out = init ++ [.bytes bytes]
  · obtain ⟨init, bytes, rfl⟩ := hlast
    rw [pushBytes_append, pushBytes_append, pushBytes_append, List.append_assoc]
  · have hapart : ∀ bytes, out.getLast? ≠ some (.bytes bytes) := by
      intro bytes hbytes
      obtain ⟨init, hinit⟩ := List.getLast?_eq_some_iff.mp hbytes
      exact hlast ⟨init, bytes, hinit⟩
    rw [pushBytes_apart hapart, pushBytes_append, pushBytes_apart hapart]

variable (png : List UInt8 → Option (Nat × Nat × List UInt8))

/-- The input leads to `next` and adds `e`, whatever the call found before. -/
def Emits (tap : ImageTap) (input : List UInt8) (next : ImageTap) (e : Emission) : Prop :=
  ∀ out, feedBytes png tap out input = (next, e.onto out)

/-- Input of which a call never makes two chunks. -/
def Atomic (input : List UInt8) : Prop := ∀ tap, ∃ next e, Emits png tap input next e

section Emits

variable {png} {tap mid next : ImageTap} {xs ys : List UInt8} {e : Emission}

theorem Emits.append {e₁ e₂ : Emission} (h₁ : Emits png tap xs mid e₁)
    (h₂ : Emits png mid ys next e₂) (he : ∀ out, e₂.onto (e₁.onto out) = e.onto out) :
    Emits png tap (xs ++ ys) next e := by
  intro out
  rw [feedBytes_append, h₁ out, h₂, he]

/-- The call of the piece alone. -/
theorem Emits.tap_eq (h : Emits png tap xs next e) : tap.tap png xs = (next, e.onto []) := h []

/-- The call that ends with the piece. -/
theorem Emits.tap_append (h : Emits png (tap.tap png xs).1 ys next e) :
    tap.tap png (xs ++ ys) = (next, e.onto (tap.tap png xs).2) :=
  (feedBytes_append png [] xs ys).trans (h _)

theorem Emits.nothing_append (h₁ : Emits png tap xs mid .nothing) (h₂ : Emits png mid ys next e) :
    Emits png tap (xs ++ ys) next e :=
  h₁.append h₂ fun _ => rfl

theorem Emits.text_append {e₁ e₂ : Emission} (h₁ : Emits png tap xs mid e₁) (ht₁ : e₁.IsText)
    (h₂ : Emits png mid ys next e₂) (ht₂ : e₂.IsText) :
    ∃ e, e.IsText ∧ Emits png tap (xs ++ ys) next e := by
  obtain rfl | ⟨b₁, rfl⟩ := ht₁
  · exact ⟨e₂, ht₂, h₁.nothing_append h₂⟩
  obtain rfl | ⟨b₂, rfl⟩ := ht₂
  · exact ⟨.join b₁, .inr ⟨b₁, rfl⟩, h₁.append h₂ fun _ => rfl⟩
  · exact ⟨.join (b₁ ++ b₂), .inr ⟨_, rfl⟩, h₁.append h₂ fun out => pushBytes_pushBytes out b₁ b₂⟩

theorem Emits.push_append {bytes : List UInt8} (h₁ : Emits png tap xs mid (.push (.bytes bytes)))
    (h₂ : Emits png mid ys next e) (ht : e.IsText) :
    ∃ bytes', Emits png tap (xs ++ ys) next (.push (.bytes bytes')) := by
  obtain rfl | ⟨more, rfl⟩ := ht
  · exact ⟨bytes, h₁.append h₂ fun _ => rfl⟩
  · exact ⟨bytes ++ more, h₁.append h₂ fun out => pushBytes_append out bytes more⟩

end Emits

/-! ### Pieces that are atomic -/

theorem exists_onto (chunk : Option ImageChunk) :
    ∃ e : Emission, ∀ out, out ++ chunk.toList = e.onto out := by
  cases chunk with
  | none => exact ⟨.nothing, fun out => List.append_nil out⟩
  | some chunk => exact ⟨.push chunk, fun _ => rfl⟩

theorem atomic_nil : Atomic png [] := fun tap => ⟨tap, .nothing, fun _ => rfl⟩

theorem atomic_singleton (byte : UInt8) : Atomic png [byte] := by
  intro tap
  -- one case for each transition; the emission is read off it
  change ∃ next e, ∀ out, tap.step png out byte = (next, Emission.onto out e)
  cases hstate : tap.state with
  | ground =>
    simp only [step, hstate]
    split
    · exact ⟨_, .nothing, fun _ => rfl⟩
    · exact ⟨_, .join [byte], fun _ => rfl⟩
  | escape =>
    simp only [step, hstate]
    split
    · exact ⟨_, .nothing, fun _ => rfl⟩
    split
    · exact ⟨_, .nothing, fun _ => rfl⟩
    split
    · exact ⟨_, .join [esc], fun _ => rfl⟩
    · exact ⟨_, .join [esc, byte], fun _ => rfl⟩
  | body kind body escaped =>
    obtain ⟨e, he⟩ := exists_onto (tap.finishBody png kind body).2
    cases escaped with
    | true =>
      simp only [step, hstate]
      split
      · exact ⟨_, e, fun out => congrArg _ (he out)⟩
      · exact ⟨_, .push _, fun _ => rfl⟩
    | false =>
      simp only [step, hstate]
      split
      · exact ⟨_, .nothing, fun _ => rfl⟩
      split
      · exact ⟨_, e, fun out => congrArg _ (he out)⟩
      split
      · split
        · exact ⟨_, .push _, fun _ => rfl⟩
        · exact ⟨_, .nothing, fun _ => rfl⟩
      · exact ⟨_, .nothing, fun _ => rfl⟩

section Foreign

variable {png} {tap : ImageTap}

theorem emits_ground_other {byte : UInt8} (hstate : tap.state = .ground) (hbyte : byte ≠ esc) :
    Emits png tap [byte] tap (.join [byte]) :=
  fun out => step_ground_other out hstate hbyte

theorem emits_ground (byte : UInt8) (hstate : tap.state = .ground) :
    ∃ next e, Emission.IsText e ∧ Emits png tap [byte] next e := by
  by_cases hbyte : byte = esc
  · subst hbyte
    exact ⟨_, .nothing, .inl rfl, fun out => step_ground_esc out hstate⟩
  · exact ⟨_, _, .inr ⟨_, rfl⟩, emits_ground_other hstate hbyte⟩

theorem emits_escape {byte : UInt8} (hstate : tap.state = .escape) (hdcs : byte ≠ 0x50) :
    ∃ next e, Emission.IsText e ∧ Emits png tap [byte] next e := by
  by_cases hapc : byte = 0x5f
  · subst hapc
    exact ⟨_, .nothing, .inl rfl, fun out => step_escape_apc out hstate⟩
  by_cases hesc : byte = esc
  · subst hesc
    exact ⟨_, .join [esc], .inr ⟨_, rfl⟩, fun out => step_escape_esc out hstate⟩
  · exact ⟨_, .join [esc, byte], .inr ⟨_, rfl⟩,
      fun out => step_escape_other out hstate hapc hdcs hesc⟩

theorem emits_dcs {body : List UInt8} (byte : UInt8) (hstate : tap.state = .body .dcs body false)
    (hlen : body.length < 2) :
    ∃ next, Emits png tap [byte] next .nothing := by
  by_cases hbyte : byte = esc
  · subst hbyte
    exact ⟨_, fun out => step_body_esc out hstate⟩
  · have hholds : BodyKind.dcs.holds byte = true := by simp [BodyKind.holds, hbyte]
    have hfits : body.length < maxSequenceBytes := Nat.lt_trans hlen (by decide)
    exact ⟨_, fun out => step_body_grow out hstate hholds hfits⟩

/-- What follows the `ESC` of a foreign sequence that the hook tap releases. -/
inductive ForeignRest : List UInt8 → Prop
  | one {byte : UInt8} (h : byte ≠ 0x50) : ForeignRest [byte]
  | two (byte : UInt8) : ForeignRest [0x50, byte]
  | three (byte : UInt8) : ForeignRest [0x50, 0x24, byte]

variable {rest : List UInt8}

theorem ForeignRest.ground (h : ForeignRest rest) (hstate : tap.state = .ground) :
    ∃ next e, Emission.IsText e ∧ Emits png tap rest next e := by
  have hdcs : Emits png tap [0x50] tap (.join [0x50]) :=
    emits_ground_other hstate (by decide)
  have hdollar : Emits png tap [0x24] tap (.join [0x24]) :=
    emits_ground_other hstate (by decide)
  cases h with
  | one => exact emits_ground _ hstate
  | two byte =>
    obtain ⟨next, e, ht, he⟩ := emits_ground byte hstate
    obtain ⟨e', ht', he'⟩ := hdcs.text_append (.inr ⟨_, rfl⟩) he ht
    exact ⟨next, e', ht', he'⟩
  | three byte =>
    obtain ⟨next, e, ht, he⟩ := emits_ground byte hstate
    obtain ⟨e', ht', he'⟩ := hdollar.text_append (.inr ⟨_, rfl⟩) he ht
    obtain ⟨e'', ht'', he''⟩ := hdcs.text_append (.inr ⟨_, rfl⟩) he' ht'
    exact ⟨next, e'', ht'', he''⟩

theorem ForeignRest.escape (h : ForeignRest rest) (hstate : tap.state = .escape) :
    ∃ next e, Emission.IsText e ∧ Emits png tap rest next e := by
  have hdcs : Emits png tap [0x50] { tap with state := .body .dcs [] false } .nothing :=
    fun out => step_escape_dcs out hstate
  cases h with
  | one hbyte => exact emits_escape hstate hbyte
  | two byte =>
    obtain ⟨next, he⟩ := @emits_dcs png { tap with state := .body .dcs [] false } [] byte rfl
      (by decide)
    exact ⟨next, .nothing, .inl rfl, hdcs.nothing_append he⟩
  | three byte =>
    have hdollar : Emits png { tap with state := .body .dcs [] false } [0x24]
        { tap with state := .body .dcs [0x24] false } .nothing :=
      fun out => @step_body_grow png { tap with state := .body .dcs [] false } .dcs [] 0x24 out
        rfl (by decide) (by decide)
    obtain ⟨next, he⟩ := @emits_dcs png { tap with state := .body .dcs [0x24] false } [0x24] byte
      rfl (by decide)
    exact ⟨next, .nothing, .inl rfl, hdcs.nothing_append (hdollar.nothing_append he)⟩

/-- After the `ESC` of a string body: the string ends, or all of it is handed back. -/
theorem ForeignRest.body {kind : BodyKind} {body : List UInt8} (h : ForeignRest rest)
    (hstate : tap.state = .body kind body true) :
    ∃ next e, Emits png tap rest next e := by
  have hdcs : Emits png tap [0x50] { tap with state := .ground }
      (.push (.bytes (kind.intro ++ body ++ [esc, 0x50]))) :=
    fun out => step_body_broken out hstate (by decide)
  cases h with
  | @one byte => exact atomic_singleton png byte tap
  | two byte =>
    obtain ⟨next, e, ht, he⟩ := @emits_ground png { tap with state := .ground } byte rfl
    obtain ⟨bytes, hpush⟩ := hdcs.push_append he ht
    exact ⟨next, _, hpush⟩
  | three byte =>
    obtain ⟨next, e, ht, he⟩ := @emits_ground png { tap with state := .ground } byte rfl
    have hdollar : Emits png { tap with state := .ground } [0x24] { tap with state := .ground }
        (.join [0x24]) := emits_ground_other rfl (by decide)
    obtain ⟨e', ht', he'⟩ := hdollar.text_append (.inr ⟨_, rfl⟩) he ht
    obtain ⟨bytes, hpush⟩ := hdcs.push_append he' ht'
    exact ⟨next, _, hpush⟩

/-- A foreign sequence that is released at once never makes two chunks. -/
theorem ForeignRest.atomic (h : ForeignRest rest) :
    Atomic png (esc :: rest) := by
  intro tap
  cases hstate : tap.state with
  | ground =>
    have hesc : Emits png tap [esc] { tap with state := .escape } .nothing :=
      fun out => step_ground_esc out hstate
    obtain ⟨next, e, -, he⟩ := @ForeignRest.escape png { tap with state := .escape } _ h rfl
    exact ⟨next, e, hesc.nothing_append he⟩
  | escape =>
    have hesc : Emits png tap [esc] tap (.join [esc]) := fun out => step_escape_esc out hstate
    obtain ⟨next, e, ht, he⟩ := @ForeignRest.escape png tap _ h hstate
    obtain ⟨e', -, he'⟩ := hesc.text_append (.inr ⟨_, rfl⟩) he ht
    exact ⟨next, e', he'⟩
  | body kind body escaped =>
    cases escaped with
    | true =>
      have hesc : Emits png tap [esc] { tap with state := .ground }
          (.push (.bytes (kind.intro ++ body ++ [esc, esc]))) :=
        fun out => step_body_broken out hstate (by decide)
      obtain ⟨next, e, ht, he⟩ := @ForeignRest.ground png { tap with state := .ground } _ h rfl
      obtain ⟨bytes, hpush⟩ := hesc.push_append he ht
      exact ⟨next, _, hpush⟩
    | false =>
      have hesc : Emits png tap [esc] { tap with state := .body kind body true } .nothing :=
        fun out => step_body_esc out hstate
      obtain ⟨next, e, he⟩ :=
        @ForeignRest.body png { tap with state := .body kind body true } _ _ _ h rfl
      exact ⟨next, e, hesc.nothing_append he⟩

end Foreign

end ImageTap

/-! ### The pieces the hook tap releases -/

namespace HookTap

variable (serde : HookJson) (png : List UInt8 → Option (Nat × Nat × List UInt8))

def released : HookTap → List UInt8 → List (List UInt8)
  | _, [] => []
  | tap, byte :: input =>
    bytesOf (scan serde tap byte).2 :: released (scan serde tap byte).1 input

theorem flatten_released (tap : HookTap) (input : List UInt8) :
    (released serde tap input).flatten = bytesOf (Transducer.run (scan serde) tap input).2 := by
  induction input generalizing tap with
  | nil => rfl
  | cons byte input ih =>
    rw [released, List.flatten_cons, ih, Transducer.run_cons, bytesOf_append]

theorem released_append (tap : HookTap) (xs ys : List UInt8) :
    released serde tap (xs ++ ys) =
      released serde tap xs ++ released serde (Transducer.run (scan serde) tap xs).1 ys := by
  induction xs generalizing tap with
  | nil => rfl
  | cons byte xs ih =>
    rw [List.cons_append, released, ih, released, Transducer.run_cons]
    rfl

theorem exists_of_prefix {tap : HookTap} {input : List UInt8} {pieces : List (List UInt8)}
    (h : pieces <+: released serde tap input) :
    ∃ read, read <+: input ∧ released serde tap read = pieces := by
  induction input generalizing tap pieces with
  | nil => exact ⟨[], List.prefix_rfl, (List.prefix_nil.mp h).symm⟩
  | cons byte input ih =>
    cases pieces with
    | nil => exact ⟨[], List.nil_prefix, rfl⟩
    | cons piece pieces =>
      obtain ⟨rfl, hrest⟩ := List.cons_prefix_cons.mp h
      obtain ⟨read, hread, hpieces⟩ := ih hrest
      exact ⟨byte :: read, List.cons_prefix_cons.mpr ⟨rfl, hread⟩, congrArg _ hpieces⟩

/-- The pieces released in each read. -/
def calls : HookTap → List (List UInt8) → List (List (List UInt8))
  | _, [] => []
  | tap, chunk :: chunks =>
    released serde tap chunk :: calls (Transducer.run (scan serde) tap chunk).1 chunks

theorem flatten_calls (tap : HookTap) (chunks : List (List UInt8)) :
    (calls serde tap chunks).flatten = released serde tap chunks.flatten := by
  induction chunks generalizing tap with
  | nil => rfl
  | cons chunk chunks ih =>
    rw [calls, List.flatten_cons, ih, List.flatten_cons, released_append]

/-- Reads of one byte. -/
theorem calls_singletons (tap : HookTap) (input : List UInt8) :
    (calls serde tap (input.map ([·]))).map List.flatten = released serde tap input := by
  induction input generalizing tap with
  | nil => rfl
  | cons byte input ih =>
    rw [List.map_cons, calls, List.map_cons]
    exact congrArg₂ _ (List.append_nil _) (ih _)

/-- Reads of one byte, and one read after them. -/
theorem calls_singletons_concat (tap : HookTap) (input last : List UInt8) :
    (calls serde tap (input.map ([·]) ++ [last])).map List.flatten =
      released serde tap input ++
        [(released serde (Transducer.run (scan serde) tap input).1 last).flatten] := by
  induction input generalizing tap with
  | nil => rfl
  | cons byte input ih =>
    rw [List.map_cons, List.cons_append, calls, List.map_cons]
    exact congrArg₂ _ (List.append_nil _) (ih _)

/-- What is held back is a proper beginning of the envelope start. -/
def Holding (tap : HookTap) : Prop :=
  ∀ held, tap.state = .prefixed held → held = [esc] ∨ held = [esc, 0x50] ∨ held = [esc, 0x50, 0x24]

variable {serde} {png}

theorem scan_atomic {tap : HookTap} (h : tap.Holding) (byte : UInt8) :
    (scan serde tap byte).1.Holding ∧ ImageTap.Atomic png (bytesOf (scan serde tap byte).2) := by
  obtain ⟨state, dropped⟩ := tap
  cases state with
  | ground =>
    simp only [scan, step]
    split
    · refine ⟨?_, ImageTap.atomic_nil png⟩
      rintro held ⟨⟩
      exact .inl rfl
    · exact ⟨h, ImageTap.atomic_singleton png byte⟩
  | prefixed held =>
    simp only [scan, step]
    split
    · next hforeign =>
      refine ⟨fun _ hstate => State.noConfusion hstate, ?_⟩
      -- all that was held back is released with the byte
      simp only [List.map_nil, List.append_nil, bytesOf_map_byte]
      obtain rfl | rfl | rfl := h held rfl
      · have hbyte : byte ≠ 0x50 := by
          rintro rfl
          cases hforeign
        exact (ImageTap.ForeignRest.one hbyte).atomic
      · exact (ImageTap.ForeignRest.two byte).atomic
      · exact (ImageTap.ForeignRest.three byte).atomic
    · next hheld =>
      split
      · exact ⟨fun _ hstate => State.noConfusion hstate, ImageTap.atomic_nil png⟩
      · next hlen =>
        refine ⟨?_, ImageTap.atomic_nil png⟩
        rintro _ ⟨⟩
        obtain rfl | rfl | rfl := h held rfl
        · have hbyte : byte = 0x50 := by simpa [prefixBytes, esc] using hheld
          exact .inr (.inl (by rw [hbyte]; rfl))
        · have hbyte : byte = 0x24 := by simpa [prefixBytes, esc] using hheld
          exact .inr (.inr (by rw [hbyte]; rfl))
        · exact absurd rfl hlen
  | body body =>
    simp only [scan, step]
    split
    · split <;> exact ⟨fun _ hstate => State.noConfusion hstate, ImageTap.atomic_nil png⟩
    · split
      · exact ⟨fun _ hstate => State.noConfusion hstate, ImageTap.atomic_nil png⟩
      · split <;> exact ⟨fun _ hstate => State.noConfusion hstate, ImageTap.atomic_nil png⟩

theorem released_atomic {tap : HookTap} (h : tap.Holding) (input : List UInt8) :
    ∀ piece ∈ released serde tap input, ImageTap.Atomic png piece := by
  induction input generalizing tap with
  | nil => exact fun _ hmem => absurd hmem List.not_mem_nil
  | cons byte input ih =>
    obtain ⟨hnext, hpiece⟩ := @scan_atomic serde png tap h byte
    exact List.forall_mem_cons.mpr ⟨hpiece, ih hnext⟩

theorem holding_new : HookTap.new.Holding := fun _ hstate => State.noConfusion hstate

end HookTap

end Goble.Terminal
