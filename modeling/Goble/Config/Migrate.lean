import Mathlib.Algebra.Ring.Nat
import Mathlib.Data.Char
import Mathlib.Data.List.Lex
import Mathlib.Data.Set.Finite.Basic
import Goble.Lib.Table
import Goble.Lib.Trimmed

/-!
# The configuration of before

An old file has one `[llm]` section with its providers and its models. `absorbLegacy` makes a table
of its own of each model, under a slug that is free, and of each provider whose name is. A provider
whose name is the slug of another table is passed over, and its endpoint and its key are recorded
nowhere; and what the default model names is looked up among the slugs first (`migrated_iff`).
-/

namespace Goble.Config

open Goble.Text

/-! ### The file -/

structure ModelConfig where
  model : List Char
  name : Option (List Char)
  baseUrl : Option (List Char)
  apiKey : Option (List Char)
  maxCompletionTokens : Option Nat
  contextWindow : Option Nat
  hidden : Option Bool
deriving DecidableEq

def ModelConfig.modelId (slug : List Char) (entry : ModelConfig) : List Char :=
  if (trim entry.model).isEmpty then slug else entry.model

structure ProviderConfig where
  name : List Char
  apiKeySecretId : List Char
  baseUrl : Option (List Char)
  model : List Char

structure LegacyModelConfig where
  id : List Char
  provider : List Char
  label : List Char
  apiKeySecretId : List Char
  baseUrl : Option (List Char)
  enabled : Bool

structure LlmConfig where
  defaultProvider : List Char
  defaultModel : List Char
  providers : List ProviderConfig
  models : List LegacyModelConfig

def LlmConfig.none : LlmConfig := ⟨[], [], [], []⟩

def LlmConfig.isEmpty (llm : LlmConfig) : Bool :=
  llm.defaultProvider.isEmpty && llm.defaultModel.isEmpty && llm.providers.isEmpty &&
    llm.models.isEmpty

structure ModelsConfig where
  default : Option (List Char)

structure GobleConfig where
  model : Table (List Char) ModelConfig
  models : ModelsConfig
  llm : LlmConfig

/-- The tables in the order of their slugs. -/
def sorted (model : Table (List Char) ModelConfig) : List (List Char × ModelConfig) :=
  (model.entries.map fun e => (e.1, e.2)).mergeSort fun a b => decide (a.1 ≤ b.1)

def modelFor (model : Table (List Char) ModelConfig) (name : List Char) :
    Option (List Char × ModelConfig) :=
  if (trim name).isEmpty then none
  else
    match model.lookup (trim name) with
    | some entry => some (trim name, entry)
    | none => (sorted model).find? fun e => e.2.model = trim name

def GobleConfig.defaultModelId (config : GobleConfig) : Option (List Char) :=
  config.models.default.bind fun default =>
    if (trim default).isEmpty then none
    else
      match config.model.lookup (trim default) with
      | some entry => some (entry.modelId (trim default))
      | none => some (trim default)

/-! ### The migration -/

def numbered (base : List Char) (n : Nat) : List Char := base ++ ('-' :: Nat.toDigits 10 n)

/-- The digits that a number is written with are those of no other. -/
theorem injective_numbered (base : List Char) : (numbered base).Injective := by
  refine (List.append_right_injective base).comp ((List.cons_injective (a := '-')).comp ?_)
  exact Function.LeftInverse.injective (g := (Nat.ofDigitChars 10 · 0)) fun n =>
    Nat.ofDigitChars_ten_toDigits

/-- The counter stops: only finitely many slugs are taken. -/
theorem exists_free (keys : List (List Char)) (base : List Char) :
    ∃ n, 2 ≤ n ∧ numbered base n ∉ keys := by
  have hinj : Function.Injective fun n => numbered base (n + 2) :=
    fun n k h => Nat.add_right_cancel (injective_numbered base h)
  have hinf : (Set.range fun n => numbered base (n + 2)).Infinite :=
    Set.infinite_range_of_injective hinj
  obtain ⟨slug, ⟨n, rfl⟩, hfree⟩ := hinf.exists_notMem_finset keys.toFinset
  exact ⟨n + 2, Nat.le_add_left 2 n, fun h => hfree (List.mem_toFinset.mpr h)⟩

def migrateSlug (keys : List (List Char)) (id provider : List Char) : List Char :=
  if trim id ∉ keys then trim id
  else if trim provider ≠ [] ∧ trim provider ++ ('-' :: trim id) ∉ keys then
    trim provider ++ ('-' :: trim id)
  -- the counter is an `i32`, which no file has the tables to exhaust
  else numbered (trim id) (Nat.find (exists_free keys (trim id)))

def givenKey (key : List Char) : Option (List Char) :=
  if (trim key).isEmpty then none else some key

def LegacyModelConfig.entry (model : LegacyModelConfig) : ModelConfig where
  model := model.id
  name := some (if (trim model.label).isEmpty then model.id else model.label)
  baseUrl := model.baseUrl
  apiKey := givenKey model.apiKeySecretId
  maxCompletionTokens := none
  contextWindow := none
  hidden := if model.enabled then none else some true

def ProviderConfig.entry (provider : ProviderConfig) : ModelConfig where
  model := if (trim provider.model).isEmpty then provider.name else provider.model
  name := some provider.name
  baseUrl := provider.baseUrl
  apiKey := givenKey provider.apiKeySecretId
  maxCompletionTokens := none
  contextWindow := none
  hidden := none

def LlmConfig.IsDefault (llm : LlmConfig) (model : LegacyModelConfig) : Prop :=
  llm.defaultModel = model.id ∧
    (llm.defaultProvider = [] ∨ llm.defaultProvider = model.provider)

instance (llm : LlmConfig) (model : LegacyModelConfig) : Decidable (llm.IsDefault model) :=
  inferInstanceAs (Decidable (_ ∧ _))

def absorbModel (llm : LlmConfig) (s : Table (List Char) ModelConfig × Option (List Char))
    (model : LegacyModelConfig) : Table (List Char) ModelConfig × Option (List Char) :=
  if (trim model.id).isEmpty then s
  else
    let slug := migrateSlug s.1.keys model.id model.provider
    (s.1.insert slug model.entry, if llm.IsDefault model then some slug else s.2)

def absorbProvider (tables : Table (List Char) ModelConfig) (provider : ProviderConfig) :
    Table (List Char) ModelConfig :=
  if (trim provider.name).isEmpty ∨ provider.name ∈ tables then tables
  else tables.insert provider.name provider.entry

/-- The slug that an id refers to, or the id itself. -/
def referred (tables : Table (List Char) ModelConfig) (id : List Char) : List Char :=
  ((modelFor tables id).map Prod.fst).getD id

namespace GobleConfig

variable (config : GobleConfig)

def absorbModels : Table (List Char) ModelConfig × Option (List Char) :=
  config.llm.models.foldl (absorbModel config.llm) (config.model, none)

def absorbProviders : Table (List Char) ModelConfig :=
  config.llm.providers.foldl absorbProvider config.absorbModels.1

def absorbDefault : Option (List Char) :=
  config.absorbModels.2 <|>
    if (trim config.llm.defaultModel).isEmpty then none
    else some (referred config.absorbProviders (trim config.llm.defaultModel))

def absorbLegacy : GobleConfig :=
  if config.llm.isEmpty then config
  else
    { model := config.absorbProviders
      models :=
        if config.models.default.isNone then ⟨config.absorbDefault⟩ else config.models
      llm := LlmConfig.none }

end GobleConfig

def slugs (keys : List (List Char)) :
    List LegacyModelConfig → List (List Char × LegacyModelConfig)
  | [] => []
  | model :: models =>
    if (trim model.id).isEmpty then slugs keys models
    else
      (migrateSlug keys model.id model.provider, model) ::
        slugs (migrateSlug keys model.id model.provider :: keys) models

namespace GobleConfig

variable (config : GobleConfig)

def Alone (provider : ProviderConfig) : Prop :=
  ∃ before after, config.llm.providers = before ++ provider :: after ∧ trim provider.name ≠ [] ∧
    provider.name ∉ config.model.keys ∧
      provider.name ∉ (slugs config.model.keys config.llm.models).map Prod.fst ∧
        ∀ other ∈ before, other.name ≠ provider.name

/-- The tables that there should be. -/
def Declares (slug : List Char) (entry : ModelConfig) : Prop :=
  config.model.lookup slug = some entry ∨
    (∃ model, (slug, model) ∈ slugs config.model.keys config.llm.models ∧ entry = model.entry) ∨
      ∃ provider, config.Alone provider ∧ slug = provider.name ∧ entry = provider.entry

end GobleConfig

/-! ### Slugs -/

theorem migrateSlug_notMem (keys : List (List Char)) (id provider : List Char) :
    migrateSlug keys id provider ∉ keys := by
  rw [migrateSlug]
  split
  · next hbase => exact hbase
  · split
    · next hcombined => exact hcombined.2
    · exact (Nat.find_spec (exists_free keys (trim id))).2

variable {id : List Char}

theorem trimmed_migrateSlug (keys : List (List Char)) (hid : trim id ≠ []) (provider : List Char) :
    Trimmed (migrateSlug keys id provider) := by
  rw [migrateSlug]
  split
  · exact trimmed_trim id
  · split
    · next hcombined =>
      exact (trimmed_trim provider).append (trimmed_trim id) hcombined.1 hid ['-']
    · exact (trimmed_trim id).append (trim_toDigits _) hid Nat.toDigits_ne_nil ['-']

theorem migrateSlug_ne_nil (keys : List (List Char)) (hid : trim id ≠ []) (provider : List Char) :
    migrateSlug keys id provider ≠ [] := by
  rw [migrateSlug]
  split
  · exact hid
  · split
    · exact List.append_ne_nil_of_right_ne_nil _ (List.cons_ne_nil _ _)
    · exact List.append_ne_nil_of_right_ne_nil _ (List.cons_ne_nil _ _)

section Slugs

variable {keys : List (List Char)} {models : List LegacyModelConfig} {slug : List Char}
  {model : LegacyModelConfig}

theorem notMem_of_mem_slugs (h : (slug, model) ∈ slugs keys models) : slug ∉ keys := by
  induction models generalizing keys with
  | nil => cases h
  | cons first models ih =>
    rw [slugs] at h
    split at h
    · exact ih h
    · obtain heq | hrest := List.mem_cons.mp h
      · obtain ⟨rfl, rfl⟩ := Prod.mk.inj heq
        exact migrateSlug_notMem keys _ _
      · exact fun hmem => ih hrest (List.mem_cons_of_mem _ hmem)

theorem trimmed_of_mem_slugs (h : (slug, model) ∈ slugs keys models) :
    Trimmed slug ∧ slug ≠ [] := by
  induction models generalizing keys with
  | nil => cases h
  | cons first models ih =>
    rw [slugs] at h
    split at h
    · exact ih h
    · next hid =>
      obtain heq | hrest := List.mem_cons.mp h
      · obtain ⟨rfl, rfl⟩ := Prod.mk.inj heq
        rw [List.isEmpty_iff] at hid
        exact ⟨trimmed_migrateSlug keys hid _, migrateSlug_ne_nil keys hid _⟩
      · exact ih hrest

theorem nodup_slugs : ((slugs keys models).map Prod.fst).Nodup := by
  induction models generalizing keys with
  | nil => exact List.nodup_nil
  | cons first models ih =>
    rw [slugs]
    split
    · exact ih
    · refine List.nodup_cons.mpr ⟨fun hmem => ?_, ih⟩
      obtain ⟨⟨slug, model⟩, hmem', rfl⟩ := List.mem_map.mp hmem
      exact notMem_of_mem_slugs hmem' List.mem_cons_self

theorem map_snd_slugs : (slugs keys models).map Prod.snd =
    models.filter fun model => !(trim model.id).isEmpty := by
  induction models generalizing keys with
  | nil => rfl
  | cons first models ih =>
    rw [slugs, List.filter_cons]
    split
    · next hid => rw [ih, hid]; rfl
    · next hid => rw [List.map_cons, ih, Bool.eq_false_of_not_eq_true hid]; rfl

end Slugs

/-! ### The tables after the migration -/

section Tables

variable {tables : Table (List Char) ModelConfig} {slug : List Char} {entry : ModelConfig}

theorem keys_insert_of_notMem (h : slug ∉ tables.keys) :
    (tables.insert slug entry).keys = slug :: tables.keys := by
  simp [AList.keys_insert, h]

theorem lookup_insert_eq_some {key : List Char} {entry' : ModelConfig} (h : slug ∉ tables.keys) :
    (tables.insert slug entry).lookup key = some entry' ↔
      key = slug ∧ entry' = entry ∨ tables.lookup key = some entry' := by
  rw [Table.lookup_insert_eq]
  split
  · next heq =>
    subst heq
    have hnone : tables.lookup key = none := AList.lookup_eq_none.mpr h
    rw [hnone, Option.some_inj, eq_comm (a := entry)]
    simp
  · next hne => simp [hne]

theorem lookup_absorbModel (llm : LlmConfig) (models : List LegacyModelConfig)
    (s : Table (List Char) ModelConfig × Option (List Char)) :
    (models.foldl (absorbModel llm) s).1.lookup slug = some entry ↔
      s.1.lookup slug = some entry ∨
        ∃ model, (slug, model) ∈ slugs s.1.keys models ∧ entry = model.entry := by
  induction models generalizing s with
  | nil =>
    refine (or_iff_left ?_).symm
    rintro ⟨model, hmem, -⟩
    cases hmem
  | cons first models ih =>
    rw [List.foldl_cons, ih, absorbModel, slugs]
    split
    · rfl
    · have hfree := migrateSlug_notMem s.1.keys first.id first.provider
      rw [keys_insert_of_notMem hfree, lookup_insert_eq_some hfree]
      simp only [List.mem_cons, Prod.mk.injEq, or_and_right, exists_or, or_assoc]
      rw [or_left_comm]
      simp

theorem mem_keys_iff : slug ∈ tables.keys ↔ ∃ entry, tables.lookup slug = some entry := by
  rw [← Option.isSome_iff_exists]
  exact AList.lookup_isSome.symm

theorem mem_keys_absorbModels (config : GobleConfig) :
    slug ∈ config.absorbModels.1.keys ↔ slug ∈ config.model.keys ∨
      slug ∈ (slugs config.model.keys config.llm.models).map Prod.fst := by
  simp only [mem_keys_iff, GobleConfig.absorbModels, lookup_absorbModel, exists_or]
  refine or_congr_right ?_
  rw [List.mem_map]
  constructor
  · rintro ⟨_, model, hmem, -⟩
    exact ⟨_, hmem, rfl⟩
  · rintro ⟨⟨slug', model⟩, hmem, rfl⟩
    exact ⟨_, model, hmem, rfl⟩

theorem lookup_absorbProvider (providers : List ProviderConfig)
    (tables : Table (List Char) ModelConfig) :
    (providers.foldl absorbProvider tables).lookup slug = some entry ↔
      tables.lookup slug = some entry ∨
        ∃ before provider after, providers = before ++ provider :: after ∧
          trim provider.name ≠ [] ∧ provider.name ∉ tables.keys ∧
            (∀ other ∈ before, other.name ≠ provider.name) ∧
              slug = provider.name ∧ entry = provider.entry := by
  induction providers generalizing tables with
  | nil =>
    refine (or_iff_left ?_).symm
    rintro ⟨before, provider, after, h, -⟩
    exact List.append_ne_nil_of_right_ne_nil _ (List.cons_ne_nil _ _) h.symm
  | cons first providers ih =>
    rw [List.foldl_cons, ih, absorbProvider]
    -- the first provider, or one of the others with the first before it
    have hsplit : (∃ before provider after, first :: providers = before ++ provider :: after ∧
          trim provider.name ≠ [] ∧ provider.name ∉ tables.keys ∧
            (∀ other ∈ before, other.name ≠ provider.name) ∧
              slug = provider.name ∧ entry = provider.entry) ↔
        (trim first.name ≠ [] ∧ first.name ∉ tables.keys ∧ slug = first.name ∧
          entry = first.entry) ∨
        ∃ before provider after, providers = before ++ provider :: after ∧
          trim provider.name ≠ [] ∧ provider.name ∉ tables.keys ∧
            (first.name ≠ provider.name ∧ ∀ other ∈ before, other.name ≠ provider.name) ∧
              slug = provider.name ∧ entry = provider.entry := by
      constructor
      · rintro ⟨before, provider, after, heq, hname, hfree, hbefore, hentry⟩
        cases before with
        | nil =>
          obtain ⟨rfl, rfl⟩ := List.cons.inj heq
          exact .inl ⟨hname, hfree, hentry⟩
        | cons other before =>
          obtain ⟨rfl, rfl⟩ := List.cons.inj heq
          exact .inr ⟨before, provider, after, rfl, hname, hfree,
            List.forall_mem_cons.mp hbefore, hentry⟩
      · rintro (⟨hname, hfree, hentry⟩ |
          ⟨before, provider, after, rfl, hname, hfree, hbefore, hentry⟩)
        · exact ⟨[], first, providers, rfl, hname, hfree, fun _ h => absurd h List.not_mem_nil,
            hentry⟩
        · exact ⟨first :: before, provider, after, rfl, hname, hfree,
            List.forall_mem_cons.mpr hbefore, hentry⟩
    rw [hsplit]
    split
    · next hskip =>
      -- whose name is free is not called as the provider that was passed over
      have hdiffer {provider : ProviderConfig} (hname : trim provider.name ≠ [])
          (hfree : provider.name ∉ tables.keys) : first.name ≠ provider.name := by
        rintro heq
        rw [heq, List.isEmpty_iff] at hskip
        exact hskip.elim hname hfree
      have hfirst : ¬ (trim first.name ≠ [] ∧ first.name ∉ tables.keys ∧ slug = first.name ∧
          entry = first.entry) := by
        rintro ⟨hname, hfree, -⟩
        exact hdiffer hname hfree rfl
      rw [or_iff_right hfirst]
      refine or_congr_right (exists₃_congr fun before provider after => and_congr_right fun _ =>
        and_congr_right fun hname => and_congr_right fun hfree => and_congr_left fun _ => ?_)
      rw [and_iff_right (hdiffer hname hfree)]
    · next hskip =>
      rw [not_or, List.isEmpty_iff] at hskip
      have hfree : first.name ∉ tables.keys := hskip.2
      rw [lookup_insert_eq_some hfree, keys_insert_of_notMem hfree, or_assoc, or_left_comm]
      refine or_congr_right (or_congr ?_ (exists₃_congr fun before provider after => ?_))
      · rw [and_iff_right hskip.1, and_iff_right hfree]
      · rw [List.mem_cons, not_or, ne_comm (a := first.name)]
        simp only [and_assoc, and_left_comm]

end Tables

/-- After the migration there are the tables that the section declares. -/
theorem lookup_absorbProviders {config : GobleConfig} {slug : List Char} {entry : ModelConfig} :
    config.absorbProviders.lookup slug = some entry ↔ config.Declares slug entry := by
  rw [GobleConfig.absorbProviders, lookup_absorbProvider, GobleConfig.absorbModels,
    lookup_absorbModel, GobleConfig.Declares, or_assoc]
  refine or_congr_right (or_congr_right ?_)
  have hkeys (name : List Char) := not_congr (@mem_keys_absorbModels name config)
  rw [GobleConfig.absorbModels] at hkeys
  simp only [hkeys, not_or, GobleConfig.Alone]
  constructor
  · rintro ⟨before, provider, after, heq, hname, ⟨hold, hnew⟩, hbefore, hentry⟩
    exact ⟨provider, ⟨before, after, heq, hname, hold, hnew, hbefore⟩, hentry⟩
  · rintro ⟨provider, ⟨before, after, heq, hname, hold, hnew, hbefore⟩, hentry⟩
    exact ⟨before, provider, after, heq, hname, ⟨hold, hnew⟩, hbefore, hentry⟩

theorem default_absorbModel (llm : LlmConfig) (models : List LegacyModelConfig)
    (s : Table (List Char) ModelConfig × Option (List Char)) :
    (∃ slug model, (models.foldl (absorbModel llm) s).2 = some slug ∧
        (slug, model) ∈ slugs s.1.keys models ∧ llm.IsDefault model) ∨
      (models.foldl (absorbModel llm) s).2 = s.2 ∧
        ∀ model ∈ models, trim model.id ≠ [] → ¬ llm.IsDefault model := by
  induction models generalizing s with
  | nil => exact .inr ⟨rfl, fun _ h => absurd h List.not_mem_nil⟩
  | cons first models ih =>
    rw [List.foldl_cons, slugs]
    have hih := ih (absorbModel llm s first)
    rw [absorbModel] at hih ⊢
    split at hih
    · next hblank =>
      rw [if_pos hblank, if_pos hblank]
      refine hih.imp_right fun hnone => ⟨hnone.1, List.forall_mem_cons.mpr ⟨?_, hnone.2⟩⟩
      exact fun hid => absurd (List.isEmpty_iff.mp hblank) hid
    · next hblank =>
      rw [if_neg hblank, if_neg hblank]
      have hfree := migrateSlug_notMem s.1.keys first.id first.provider
      dsimp only at hih ⊢
      rw [keys_insert_of_notMem hfree] at hih
      obtain ⟨slug, model, hslug, hmem, hdefault⟩ | ⟨hslug, hnone⟩ := hih
      · exact .inl ⟨slug, model, hslug, List.mem_cons_of_mem _ hmem, hdefault⟩
      · by_cases hdefault : llm.IsDefault first
        · rw [if_pos hdefault] at hslug
          refine .inl ⟨_, first, ?_, List.mem_cons_self, hdefault⟩
          rw [if_pos hdefault, hslug]
        · rw [if_neg hdefault] at hslug
          refine .inr ⟨?_, List.forall_mem_cons.mpr ⟨fun _ => hdefault, hnone⟩⟩
          rw [if_neg hdefault, hslug]

/-! ### The default -/

def ModelAt (declares : List Char → ModelConfig → Prop) (slug id : List Char) : Prop :=
  slug ≠ [] ∧ ((∃ entry, declares slug entry ∧ entry.modelId slug = id) ∨
    (∀ entry, ¬ declares slug entry) ∧ slug = id)

/-- The slug that an id refers to: itself if it has a table, or else the first of those whose model
it is, or else itself. -/
def Refers (declares : List Char → ModelConfig → Prop) (id slug : List Char) : Prop :=
  (∃ entry, declares id entry) ∧ slug = id ∨
    (∀ entry, ¬ declares id entry) ∧
      ((∃ entry, declares slug entry ∧ entry.model = id ∧
          ∀ slug' entry', declares slug' entry' → entry'.model = id → slug ≤ slug') ∨
        (∀ slug' entry', declares slug' entry' → entry'.model ≠ id) ∧ slug = id)

section Default

variable {tables : Table (List Char) ModelConfig}

variable {slug : List Char}

theorem mem_sorted {entry : ModelConfig} :
    (slug, entry) ∈ sorted tables ↔ tables.lookup slug = some entry := by
  rw [sorted, List.mem_mergeSort, List.mem_map]
  constructor
  · rintro ⟨⟨slug', entry'⟩, hmem, heq⟩
    obtain ⟨rfl, rfl⟩ := Prod.mk.inj heq
    exact AList.mem_lookup_iff.mpr hmem
  · intro h
    exact ⟨⟨slug, entry⟩, AList.mem_lookup_iff.mp h, rfl⟩

theorem pairwise_sorted : (sorted tables).Pairwise fun a b => a.1 ≤ b.1 := by
  have hsorted := List.pairwise_mergeSort
    (fun (a b c : List Char × ModelConfig) (hab : decide (a.1 ≤ b.1) = true) hbc =>
      decide_eq_true (le_trans (of_decide_eq_true hab) (of_decide_eq_true hbc)))
    (fun a b => by simpa using le_total a.1 b.1)
    (tables.entries.map fun e => (e.1, e.2))
  exact hsorted.imp of_decide_eq_true

theorem find?_sorted_eq_some {entry : ModelConfig}
    (h : ((sorted tables).find? fun e => e.2.model = id) = some (slug, entry)) :
    tables.lookup slug = some entry ∧ entry.model = id ∧
      ∀ slug' entry', tables.lookup slug' = some entry' → entry'.model = id → slug ≤ slug' := by
  obtain ⟨hmodel, before, after, heq, hbefore⟩ := List.find?_eq_some_iff_append.mp h
  have hmem : (slug, entry) ∈ sorted tables := heq ▸ by simp
  refine ⟨mem_sorted.mp hmem, of_decide_eq_true hmodel, fun slug' entry' hlookup hmodel' => ?_⟩
  rw [← mem_sorted, heq, List.mem_append] at hlookup
  obtain hearlier | hlater := hlookup
  · exact absurd hmodel' (by simpa using hbefore _ hearlier)
  · have hsorted := @pairwise_sorted tables
    rw [heq] at hsorted
    obtain hself | hafter := List.mem_cons.mp hlater
    · obtain ⟨rfl, -⟩ := Prod.mk.inj hself
      exact le_refl _
    · exact (List.pairwise_cons.mp (List.pairwise_append.mp hsorted).2.1).1 _ hafter

theorem referred_iff (hid : Trimmed id) (hne : id ≠ []) :
    referred tables id = slug ↔
      Refers (fun slug entry => tables.lookup slug = some entry) id slug := by
  have hempty : (trim id).isEmpty = false := by
    rw [show trim id = id from hid, List.isEmpty_eq_false_iff]
    exact hne
  rw [referred, modelFor, hempty, if_neg Bool.false_ne_true, show trim id = id from hid, Refers,
    eq_comm (a := slug) (b := id)]
  cases hlookup : tables.lookup id with
  | some entry => simp
  | none =>
    simp only [reduceCtorEq, exists_false, false_and, not_false_eq_true, implies_true, true_and,
      false_or]
    cases hfind : (sorted tables).find? fun e => e.2.model = id with
    | some e =>
      obtain ⟨first, entry⟩ := e
      obtain ⟨hfirst, hmodel, hleast⟩ := find?_sorted_eq_some hfind
      rw [Option.map_some, Option.getD_some]
      constructor
      · rintro rfl
        exact .inl ⟨entry, hfirst, hmodel, hleast⟩
      · rintro (⟨entry', hslug, hmodel', hleast'⟩ | ⟨hnone, -⟩)
        · -- of two that come first neither is before the other
          exact le_antisymm (hleast slug entry' hslug hmodel')
            (hleast' first entry hfirst hmodel)
        · exact absurd hmodel (hnone first entry hfirst)
    | none =>
      have hnone (slug' : List Char) (entry' : ModelConfig)
          (h : tables.lookup slug' = some entry') : entry'.model ≠ id := by
        have hnot := List.find?_eq_none.mp hfind _ (mem_sorted.mpr h)
        simpa using hnot
      rw [Option.map_none, Option.getD_none]
      constructor
      · rintro rfl
        exact .inr ⟨hnone, rfl⟩
      · rintro (⟨entry', hslug, hmodel', -⟩ | ⟨-, heq⟩)
        · exact absurd hmodel' (hnone slug entry' hslug)
        · exact heq

theorem defaultModelId_eq_some_iff {config : GobleConfig}
    (hdefault : config.models.default = some slug) : config.defaultModelId = some id ↔
      ModelAt (fun slug entry => config.model.lookup slug = some entry) (trim slug) id := by
  rw [GobleConfig.defaultModelId, hdefault, Option.bind_some, ModelAt]
  by_cases hempty : trim slug = []
  · simp [hempty]
  · rw [if_neg (by rwa [List.isEmpty_iff]), and_iff_right hempty]
    cases config.model.lookup (trim slug) with
    | some entry => simp
    | none => simp

end Default

/-! ### What the migration keeps -/

def Records (provider : ProviderConfig) (entry : ModelConfig) : Prop :=
  entry.baseUrl = provider.baseUrl ∧ entry.apiKey = givenKey provider.apiKeySecretId

structure IsTableOf (legacy : LegacyModelConfig) (entry : ModelConfig) : Prop where
  model : entry.model = legacy.id
  baseUrl : entry.baseUrl = legacy.baseUrl
  apiKey : entry.apiKey = givenKey legacy.apiKeySecretId
  hidden : entry.hidden = some true ↔ legacy.enabled = false

/-- Everything that the file says is there after the migration. -/
structure Migrated (config config' : GobleConfig) : Prop where
  existing : ∀ slug entry, config.model.lookup slug = some entry →
    config'.model.lookup slug = some entry
  models : ∃ new : List (List Char), new.Nodup ∧ (∀ slug ∈ new, slug ∉ config.model.keys) ∧
    List.Forall₂ (fun slug model => ∃ entry, config'.model.lookup slug = some entry ∧
      IsTableOf model entry) new (config.llm.models.filter fun model => !(trim model.id).isEmpty)
  providers : ∀ provider ∈ config.llm.providers, trim provider.name ≠ [] →
    ∃ slug entry, config'.model.lookup slug = some entry ∧ Records provider entry
  default : config.models.default = none → trim config.llm.defaultModel ≠ [] →
    config'.defaultModelId = some config.llm.defaultModel
  again : config'.absorbLegacy = config'

/-- What a file must be like. -/
structure Recoverable (config : GobleConfig) : Prop where
  /-- A provider's name is free, or its endpoint and key are also those of another table: of one
  that was there, of a model, or of a provider whose name is. -/
  providers : ∀ provider ∈ config.llm.providers, trim provider.name ≠ [] →
    (∃ slug entry, config.model.lookup slug = some entry ∧ Records provider entry) ∨
      (∃ model ∈ config.llm.models, trim model.id ≠ [] ∧ Records provider model.entry) ∨
        ∃ other, config.Alone other ∧ Records provider other.entry
  /-- A model is the default, or what the trimmed default refers to is. -/
  default : config.models.default = none → trim config.llm.defaultModel ≠ [] →
    (∃ model ∈ config.llm.models, trim model.id ≠ [] ∧ config.llm.IsDefault model) ∨
      ∃ slug, Refers config.Declares (trim config.llm.defaultModel) slug ∧
        ModelAt config.Declares (trim slug) config.llm.defaultModel

section Migrating

variable {config : GobleConfig}

/-- With no section the tables are those of the file. -/
theorem model_absorbLegacy : config.absorbLegacy.model = config.absorbProviders := by
  rw [GobleConfig.absorbLegacy]
  split
  · next hempty =>
    simp only [LlmConfig.isEmpty, Bool.and_eq_true, List.isEmpty_iff] at hempty
    rw [GobleConfig.absorbProviders, GobleConfig.absorbModels, hempty.1.2, hempty.2]
    rfl
  · rfl

theorem lookup_absorbLegacy {slug : List Char} {entry : ModelConfig} :
    config.absorbLegacy.model.lookup slug = some entry ↔ config.Declares slug entry := by
  rw [model_absorbLegacy, lookup_absorbProviders]

theorem absorbLegacy_absorbLegacy : config.absorbLegacy.absorbLegacy = config.absorbLegacy := by
  have hempty : config.absorbLegacy.llm.isEmpty = true := by
    rw [GobleConfig.absorbLegacy]
    split
    · next hempty => exact hempty
    · rfl
  rw [GobleConfig.absorbLegacy, if_pos hempty]

theorem isTableOf_entry (legacy : LegacyModelConfig) : IsTableOf legacy legacy.entry where
  model := rfl
  baseUrl := rfl
  apiKey := rfl
  hidden := by
    rw [LegacyModelConfig.entry]
    cases legacy.enabled with
    | false => simp
    | true => simp

theorem models_absorbLegacy : ∃ new : List (List Char), new.Nodup ∧
    (∀ slug ∈ new, slug ∉ config.model.keys) ∧
      List.Forall₂ (fun slug legacy => ∃ entry, config.absorbLegacy.model.lookup slug = some entry ∧
        IsTableOf legacy entry) new
          (config.llm.models.filter fun model => !(trim model.id).isEmpty) := by
  refine ⟨(slugs config.model.keys config.llm.models).map Prod.fst, nodup_slugs, ?_, ?_⟩
  · intro slug hslug
    obtain ⟨⟨slug, legacy⟩, hmem, rfl⟩ := List.mem_map.mp hslug
    exact notMem_of_mem_slugs hmem
  · rw [← @map_snd_slugs config.model.keys, List.forall₂_map_left_iff,
      List.forall₂_map_right_iff, List.forall₂_same]
    intro new hnew
    exact ⟨_, lookup_absorbLegacy.mpr (.inr (.inl ⟨new.2, hnew, rfl⟩)), isTableOf_entry new.2⟩

theorem exists_mem_slugs {keys : List (List Char)} {models : List LegacyModelConfig}
    {model : LegacyModelConfig} :
    (∃ slug, (slug, model) ∈ slugs keys models) ↔ model ∈ models ∧ trim model.id ≠ [] := by
  have hmem := congrArg (model ∈ ·) (@map_snd_slugs keys models)
  simpa using hmem

theorem records_iff {provider : ProviderConfig} :
    (∃ slug entry, config.Declares slug entry ∧ Records provider entry) ↔
      (∃ slug entry, config.model.lookup slug = some entry ∧ Records provider entry) ∨
        (∃ model ∈ config.llm.models, trim model.id ≠ [] ∧ Records provider model.entry) ∨
          ∃ other, config.Alone other ∧ Records provider other.entry := by
  constructor
  · rintro ⟨slug, entry, hold | ⟨model, hmem, rfl⟩ | ⟨other, halone, -, rfl⟩, hrecords⟩
    · exact .inl ⟨slug, entry, hold, hrecords⟩
    · obtain ⟨hmodel, hid⟩ := exists_mem_slugs.mp ⟨slug, hmem⟩
      exact .inr (.inl ⟨model, hmodel, hid, hrecords⟩)
    · exact .inr (.inr ⟨other, halone, hrecords⟩)
  · rintro (⟨slug, entry, hold, hrecords⟩ | ⟨model, hmodel, hid, hrecords⟩ |
      ⟨other, halone, hrecords⟩)
    · exact ⟨slug, entry, .inl hold, hrecords⟩
    · obtain ⟨slug, hmem⟩ := (@exists_mem_slugs config.model.keys _ _).mpr ⟨hmodel, hid⟩
      exact ⟨slug, _, .inr (.inl ⟨model, hmem, rfl⟩), hrecords⟩
    · exact ⟨_, _, .inr (.inr ⟨other, halone, rfl, rfl⟩), hrecords⟩

theorem defaultModelId_absorbLegacy (hunset : config.models.default = none)
    (hdefault : trim config.llm.defaultModel ≠ []) :
    config.absorbLegacy.defaultModelId = some config.llm.defaultModel ↔
      (∃ model ∈ config.llm.models, trim model.id ≠ [] ∧ config.llm.IsDefault model) ∨
        ∃ slug, Refers config.Declares (trim config.llm.defaultModel) slug ∧
          ModelAt config.Declares (trim slug) config.llm.defaultModel := by
  have hempty : config.llm.isEmpty = false := by
    have hne : config.llm.defaultModel ≠ [] := by
      intro hnil
      rw [hnil] at hdefault
      exact hdefault rfl
    simp [LlmConfig.isEmpty, hne]
  have hmodels : config.absorbLegacy.models.default = config.absorbDefault := by
    rw [GobleConfig.absorbLegacy, hempty, if_neg Bool.false_ne_true, hunset]
    rfl
  have hblank : ¬ (trim config.llm.defaultModel).isEmpty = true := by rwa [List.isEmpty_iff]
  rw [GobleConfig.absorbDefault, if_neg hblank] at hmodels
  obtain ⟨slug, model, hslug, hmem, hnamed⟩ | ⟨hslug, hnone⟩ :=
    default_absorbModel config.llm config.llm.models (config.model, none)
  · rw [← GobleConfig.absorbModels] at hslug
    rw [hslug] at hmodels
    obtain ⟨hmodel, hid⟩ := exists_mem_slugs.mp ⟨slug, hmem⟩
    obtain ⟨htrimmed, hne⟩ := trimmed_of_mem_slugs hmem
    refine iff_of_true ?_ (.inl ⟨model, hmodel, hid, hnamed⟩)
    rw [defaultModelId_eq_some_iff hmodels, show trim slug = slug from htrimmed]
    refine ⟨hne, .inl ⟨model.entry, lookup_absorbLegacy.mpr (.inr (.inl ⟨model, hmem, rfl⟩)), ?_⟩⟩
    rw [ModelConfig.modelId, if_neg, hnamed.1]
    · rfl
    · rwa [List.isEmpty_iff]
  · rw [← GobleConfig.absorbModels] at hslug
    rw [hslug] at hmodels
    have hno : ¬ ∃ model ∈ config.llm.models, trim model.id ≠ [] ∧ config.llm.IsDefault model := by
      rintro ⟨model, hmodel, hid, hnamed⟩
      exact hnone model hmodel hid hnamed
    rw [or_iff_right hno, defaultModelId_eq_some_iff hmodels]
    simp only [lookup_absorbLegacy]
    have hrefers (slug : List Char) : Refers config.Declares (trim config.llm.defaultModel) slug ↔
        referred config.absorbProviders (trim config.llm.defaultModel) = slug := by
      rw [referred_iff (trimmed_trim _) hdefault]
      simp only [lookup_absorbProviders]
    simp only [hrefers, exists_eq_left']

/-- The migration keeps every model, endpoint and key, and the default, just if the file is
recoverable. -/
theorem migrated_iff (config : GobleConfig) :
    Migrated config config.absorbLegacy ↔ Recoverable config := by
  constructor
  · intro h
    refine ⟨fun provider hmem hname => ?_, fun hunset hdefault => ?_⟩
    · rw [← records_iff]
      simp only [← lookup_absorbLegacy]
      exact h.providers provider hmem hname
    · exact (defaultModelId_absorbLegacy hunset hdefault).mp (h.default hunset hdefault)
  · intro h
    refine ⟨fun slug entry hold => lookup_absorbLegacy.mpr (.inl hold), models_absorbLegacy,
      fun provider hmem hname => ?_, fun hunset hdefault => ?_, absorbLegacy_absorbLegacy⟩
    · simp only [lookup_absorbLegacy]
      exact records_iff.mpr (h.providers provider hmem hname)
    · exact (defaultModelId_absorbLegacy hunset hdefault).mpr (h.default hunset hdefault)

end Migrating

/-- A model table without a key, and a provider of the same name that has one. -/
def sameName : GobleConfig where
  model := AList.insert "deepseek".toList
    ⟨"deepseek-chat".toList, none, none, none, none, none, none⟩ ∅
  models := ⟨some "deepseek".toList⟩
  llm := ⟨[], [], [⟨"deepseek".toList, "sk-live".toList, none, []⟩], []⟩

/-- The key is recorded nowhere. -/
theorem not_migrated : ¬ Migrated sameName sameName.absorbLegacy := by
  intro h
  obtain ⟨slug, entry, hlookup, -, hkey⟩ :=
    h.providers ⟨"deepseek".toList, "sk-live".toList, none, []⟩ List.mem_cons_self (by decide)
  have htables : sameName.absorbLegacy.model = sameName.model := rfl
  rw [htables, sameName, Table.lookup_insert_eq] at hlookup
  split at hlookup
  · obtain rfl := Option.some.inj hlookup
    exact absurd hkey (by decide)
  · rw [AList.lookup_empty] at hlookup
    cases hlookup

end Goble.Config
