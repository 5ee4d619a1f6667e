import Goble.Identity.Store
import Goble.Lib.Lists
import Goble.Lib.Machine
import Mathlib.Data.Finset.Max

/-!
# Which revocations reach everybody

The participants of one cluster: CAs that are built, rebuilt and restored at any time, the lists
they have signed, and the stores that verify with these lists. A signature is taken to verify
exactly on what was signed, so a list verifies if it is among those that were issued.

Two lists of the same version need not say the same, since every CA counts for itself. A store
takes over the first of them that reaches it and refuses the others: the last writer wins by
version. So what a store ends up with after all lists are delivered depends on the order, and what
is rejected after every order is what all the lists of the greatest version have in common
(`revoked_everywhere_iff`).
-/

namespace Goble.Identity

structure Verifier where
  store : CertificateStore
  delivered : List SignedCrl

structure Cluster where
  cas : List ClusterCa
  verifiers : List Verifier
  issued : List SignedCrl
  /-- The revoked serials of the backups that were made. -/
  backups : List (List Serial)
  /-- What was revoked, by any of the CAs. -/
  revocations : List Serial

inductive ClusterStep where
  | buildFromKey (serial : Serial) (certPem : List Char)
  /-- The set of the revoked serials is written down in some order. -/
  | backup (ca : Nat) (order : List Serial)
  | restoreCa (backup : Nat) (serial : Serial) (certPem : List Char)
  | sign (ca : Nat) (serial : Serial) (certPem : List Char)
  | revoke (ca : Nat) (serial : Serial)
  | issue (ca : Nat) (at' : Int)
  | applyCrl (ca : Nat) (crl : SignedCrl)
  | newVerifier
  | add (verifier : Nat) (serial : Serial) (certPem : List Char)
  | deliver (verifier : Nat) (crl : SignedCrl)
deriving DecidableEq, Repr

variable (lower : Serial → Serial)

namespace Verifier

/-- A list arrives. It counts as delivered if it is one that was issued. -/
def deliver (issued : List SignedCrl) (v : Verifier) (crl : SignedCrl) : Verifier where
  store := (v.store.applyCrl (crl ∈ issued) crl).2
  delivered := if crl ∈ issued then crl :: v.delivered else v.delivered

def Complete (v : Verifier) (issued : List SignedCrl) : Prop := ∀ crl ∈ issued, crl ∈ v.delivered

end Verifier

namespace Cluster

def init : Cluster := ⟨[], [], [], [], []⟩

def setCa (s : Cluster) (i : Nat) (ca : ClusterCa) : Cluster := { s with cas := s.cas.set i ca }

def setVerifier (s : Cluster) (i : Nat) (v : Verifier) : Cluster :=
  { s with verifiers := s.verifiers.set i v }

def step (s : Cluster) : ClusterStep → Option Cluster
  | .buildFromKey serial certPem =>
    some { s with cas := s.cas ++ [ClusterCa.buildFromKey serial certPem] }
  | .backup i order =>
    (s.cas[i]?).bind fun ca =>
      if order.Perm ca.store.revoked then some { s with backups := s.backups ++ [order] } else none
  | .restoreCa i serial certPem =>
    (s.backups[i]?).map fun revokedSerials =>
      { s with cas := s.cas ++ [ClusterCa.restoreCa lower serial certPem revokedSerials] }
  | .sign i serial certPem =>
    (s.cas[i]?).bind fun ca => (ca.store.add serial certPem).map fun store => s.setCa i ⟨store⟩
  | .revoke i serial =>
    (s.cas[i]?).map fun ca =>
      { s.setCa i (ca.revoke lower serial) with revocations := serial :: s.revocations }
  | .issue i at' => (s.cas[i]?).map fun ca => { s with issued := s.issued ++ [ca.crl at'] }
  | .applyCrl i crl => (s.cas[i]?).map fun ca => s.setCa i (ca.applyCrl (crl ∈ s.issued) crl).2
  | .newVerifier => some { s with verifiers := s.verifiers ++ [⟨.new, []⟩] }
  | .add i serial certPem =>
    (s.verifiers[i]?).bind fun v =>
      (v.store.add serial certPem).map fun store => s.setVerifier i { v with store }
  | .deliver i crl => (s.verifiers[i]?).map fun v => s.setVerifier i (v.deliver s.issued crl)

end Cluster

/-- One cluster, with any number of participants. -/
def cluster : Machine Cluster ClusterStep := ⟨.init, Cluster.step lower⟩

def Latest (issued : List SignedCrl) (crl : SignedCrl) : Prop :=
  crl ∈ issued ∧ ∀ other ∈ issued, other.version ≤ crl.version

def ListedLast (issued : List SignedCrl) (serial : Serial) : Prop :=
  issued ≠ [] ∧ ∀ crl, Latest issued crl → serial ∈ crl.revokedSerials

def RejectedOnceDelivered (s : Cluster) (serial : Serial) : Prop :=
  ∀ ks s', (cluster lower).exec s ks = some s' → s'.issued = s.issued →
    ∀ v ∈ s'.verifiers, v.Complete s'.issued → v.store.isRevoked lower serial = true

/-! ### What a step does -/

variable {lower} {s s' : Cluster} {l : ClusterStep} {q : Serial}

/-- The revoked serials of one store are among those of another. -/
def CertificateStore.Sub (store store' : CertificateStore) : Prop := store.revoked ⊆ store'.revoked

theorem CertificateStore.Sub.refl (store : CertificateStore) : store.Sub store :=
  List.Subset.refl store.revoked

theorem CertificateStore.Sub.of_eq {store store' : CertificateStore}
    (h : store'.revoked = store.revoked) : store.Sub store' := by
  rw [CertificateStore.Sub, h]
  exact List.Subset.refl _

/-- No participant goes away, and none forgets a revocation. -/
structure Remembers (s s' : Cluster) : Prop where
  cas : Grows (fun ca ca' => ca.store.Sub ca'.store) s.cas s'.cas
  verifiers : Grows (fun v v' => v.store.Sub v'.store) s.verifiers s'.verifiers

variable {i : Nat}

namespace Remembers

theorem refl (s : Cluster) : Remembers s s :=
  ⟨.refl (fun _ => .refl _) _, .refl (fun _ => .refl _) _⟩

theorem trans {t : Cluster} (h : Remembers s s') (h' : Remembers s' t) : Remembers s t :=
  ⟨h.cas.trans List.Subset.trans h'.cas, h.verifiers.trans List.Subset.trans h'.verifiers⟩

theorem setCa {ca ca' : ClusterCa} (h : s.cas[i]? = some ca) (hsub : ca.store.Sub ca'.store) :
    Remembers s (s.setCa i ca') :=
  ⟨.set (fun _ => .refl _) h hsub, .refl (fun _ => .refl _) _⟩

theorem setVerifier {v v' : Verifier} (h : s.verifiers[i]? = some v) (hsub : v.store.Sub v'.store) :
    Remembers s (s.setVerifier i v') :=
  ⟨.refl (fun _ => .refl _) _, .set (fun _ => .refl _) h hsub⟩

end Remembers

theorem add_revoked {store store' : CertificateStore} {serial : Serial} {certPem : List Char}
    (h : store.add serial certPem = some store') :
    store'.revoked = store.revoked ∧ store'.crlVersion = store.crlVersion := by
  rw [CertificateStore.add] at h
  split at h
  · exact absurd h (by simp)
  · obtain rfl := Option.some.inj h
    exact ⟨rfl, rfl⟩

/-- Everything a step may do to the participants and to the lists that were issued. -/
inductive Moved : Cluster → Cluster → Prop where
  | newCa (s : Cluster) (ca : ClusterCa) (hcounted : ca.store.Counted) :
      Moved s { s with cas := s.cas ++ [ca] }
  | ca (s : Cluster) (i : Nat) (before after : ClusterCa) (revocations : List Serial)
      (hbefore : s.cas[i]? = some before) (hsub : before.store.Sub after.store)
      (hcounted : before.store.Counted → after.store.Counted) :
      Moved s { s.setCa i after with revocations }
  | issue (s : Cluster) (i : Nat) (ca : ClusterCa) (at' : Int) (hca : s.cas[i]? = some ca) :
      Moved s { s with issued := s.issued ++ [ca.crl at'] }
  | backup (s : Cluster) (backups : List (List Serial)) : Moved s { s with backups }
  | newVerifier (s : Cluster) : Moved s { s with verifiers := s.verifiers ++ [⟨.new, []⟩] }
  | add (s : Cluster) (i : Nat) (v : Verifier) (store : CertificateStore)
      (hv : s.verifiers[i]? = some v) (hrevoked : store.revoked = v.store.revoked)
      (hversion : store.crlVersion = v.store.crlVersion) : Moved s (s.setVerifier i { v with store })
  | deliver (s : Cluster) (i : Nat) (v : Verifier) (crl : SignedCrl)
      (hv : s.verifiers[i]? = some v) : Moved s (s.setVerifier i (v.deliver s.issued crl))

theorem step_moved (h : s.step lower l = some s') : Moved s s' := by
  cases l with
  | buildFromKey serial certPem =>
    obtain rfl := Option.some.inj h
    exact .newCa s _ fun _ => rfl
  | backup i order =>
    obtain ⟨ca, -, h⟩ := Option.bind_eq_some_iff.mp h
    split at h
    · obtain rfl := Option.some.inj h
      exact .backup s _
    · exact absurd h (by simp)
  | restoreCa i serial certPem =>
    obtain ⟨revokedSerials, -, rfl⟩ := Option.map_eq_some_iff.mp h
    exact .newCa s _ (.restoreCa certPem revokedSerials)
  | sign i serial certPem =>
    obtain ⟨ca, hca, h⟩ := Option.bind_eq_some_iff.mp h
    obtain ⟨store, hadd, rfl⟩ := Option.map_eq_some_iff.mp h
    obtain ⟨hrevoked, hversion⟩ := add_revoked hadd
    refine .ca s i ca ⟨store⟩ s.revocations hca (.of_eq hrevoked) fun hcounted => ?_
    exact fun hzero => hrevoked.trans (hcounted (hversion.symm.trans hzero))
  | revoke i serial =>
    obtain ⟨ca, hca, rfl⟩ := Option.map_eq_some_iff.mp h
    exact .ca s i ca _ _ hca (fun q => mem_revoked_of_revoke) fun hcounted => hcounted.revoke serial
  | issue i at' =>
    obtain ⟨ca, hca, rfl⟩ := Option.map_eq_some_iff.mp h
    exact .issue s i ca at' hca
  | applyCrl i crl =>
    obtain ⟨ca, hca, rfl⟩ := Option.map_eq_some_iff.mp h
    have hstore : (ca.applyCrl (crl ∈ s.issued) crl).2.store =
        (ca.store.applyCrl (crl ∈ s.issued) crl).2 := applyCrl_store _
    refine .ca s i ca _ s.revocations hca ?_ ?_
    · rw [CertificateStore.Sub, hstore]
      exact fun q hq => mem_revoked_of_applyCrl hq _
    · rw [hstore]
      exact fun hcounted => hcounted.applyCrl _
  | newVerifier =>
    obtain rfl := Option.some.inj h
    exact .newVerifier s
  | add i serial certPem =>
    obtain ⟨v, hv, h⟩ := Option.bind_eq_some_iff.mp h
    obtain ⟨store, hadd, rfl⟩ := Option.map_eq_some_iff.mp h
    obtain ⟨hrevoked, hversion⟩ := add_revoked hadd
    exact .add s i v store hv hrevoked hversion
  | deliver i crl =>
    obtain ⟨v, hv, rfl⟩ := Option.map_eq_some_iff.mp h
    exact .deliver s i v crl hv

theorem Moved.remembers (h : Moved s s') : Remembers s s' := by
  have hcas := Grows.refl (R := fun ca ca' : ClusterCa => ca.store.Sub ca'.store)
    (fun _ => .refl _) s.cas
  have hverifiers := Grows.refl (R := fun v v' : Verifier => v.store.Sub v'.store)
    (fun _ => .refl _) s.verifiers
  cases h with
  | newCa ca _ => exact ⟨.append (fun _ => .refl _) _ _, hverifiers⟩
  | ca i before after revocations hbefore hsub _ =>
    exact ⟨(Remembers.setCa hbefore hsub).cas, hverifiers⟩
  | issue i ca at' _ => exact ⟨hcas, hverifiers⟩
  | backup backups => exact ⟨hcas, hverifiers⟩
  | newVerifier => exact ⟨hcas, .append (fun _ => .refl _) _ _⟩
  | add i v store hv hrevoked _ => exact .setVerifier hv (.of_eq hrevoked)
  | deliver i v crl hv => exact .setVerifier hv fun q hq => mem_revoked_of_applyCrl hq _

/-- A serial revoked in a store stays revoked there. -/
theorem remembers_of_exec {ks : List ClusterStep} (hrun : (cluster lower).exec s ks = some s') :
    Remembers s s' :=
  Machine.exec_invariant (M := cluster lower) (I := fun t => Remembers s t)
    (fun _ _ _ h _ hstep => h.trans (step_moved hstep).remembers) (.refl s)
    (Machine.along_true _ _) hrun

/-! ### What a verifying store stands at -/

structure Verifier.Sound (issued : List SignedCrl) (v : Verifier) : Prop where
  issued : v.delivered ⊆ issued
  le : ∀ crl ∈ v.delivered, crl.version ≤ v.store.crlVersion
  stands : v.store.crlVersion = 0 ∨ ∃ crl ∈ v.delivered, crl.version = v.store.crlVersion ∧
    crl.revokedSerials ⊆ v.store.revoked

namespace Verifier.Sound

variable {issued : List SignedCrl} {v : Verifier}

theorem new : Sound issued ⟨.new, []⟩ := ⟨List.nil_subset _, nofun, .inl rfl⟩

theorem mono {issued' : List SignedCrl} (h : v.Sound issued) (hsub : issued ⊆ issued') :
    v.Sound issued' := ⟨List.Subset.trans h.issued hsub, h.le, h.stands⟩

theorem add (h : v.Sound issued) {store : CertificateStore}
    (hrevoked : store.revoked = v.store.revoked) (hversion : store.crlVersion = v.store.crlVersion) :
    Sound issued { v with store } where
  issued := h.issued
  le crl hcrl := (h.le crl hcrl).trans_eq hversion.symm
  stands := by
    show store.crlVersion = 0 ∨ ∃ crl ∈ v.delivered, crl.version = store.crlVersion ∧
      crl.revokedSerials ⊆ store.revoked
    rw [hversion, hrevoked]
    exact h.stands

/-- Whether it is accepted or not, after the delivery of a list the store stands at its version at
least. -/
theorem deliver (h : v.Sound issued) (crl : SignedCrl) : (v.deliver issued crl).Sound issued := by
  by_cases hissued : crl ∈ issued
  · have hdelivered : (v.deliver issued crl).delivered = crl :: v.delivered := if_pos hissued
    rcases applyCrl_cases (crl ∈ issued) with
      ⟨-, hlt, hstore⟩ | ⟨hle, hstore⟩
    · have hstore : (v.deliver issued crl).store = v.store.accept crl := hstore
      constructor
      · rw [hdelivered]
        exact List.cons_subset.mpr ⟨hissued, h.issued⟩
      · rw [hdelivered, hstore, accept_crlVersion]
        exact List.forall_mem_cons.mpr ⟨le_rfl, fun d hd => (h.le d hd).trans hlt.le⟩
      · rw [hdelivered, hstore]
        exact .inr ⟨crl, List.mem_cons_self, rfl, fun q hq => mem_revoked_accept.mpr (.inr hq)⟩
    · have hstore : (v.deliver issued crl).store = v.store := hstore
      constructor
      · rw [hdelivered]
        exact List.cons_subset.mpr ⟨hissued, h.issued⟩
      · rw [hdelivered, hstore]
        exact List.forall_mem_cons.mpr ⟨hle (by simpa using hissued), h.le⟩
      · rw [hdelivered, hstore]
        exact h.stands.imp_right fun ⟨d, hd, hrest⟩ => ⟨d, List.mem_cons_of_mem _ hd, hrest⟩
  · have hsame : v.deliver issued crl = v := by
      rw [Verifier.deliver, if_neg hissued]
      rcases applyCrl_cases (crl ∈ issued) with
        ⟨hverified, -⟩ | ⟨-, hstore⟩
      · exact absurd (by simpa using hverified) hissued
      · rw [hstore]
    rw [hsame]
    exact h

end Verifier.Sound

structure Cluster.Sound (s : Cluster) : Prop where
  cas : ∀ ca ∈ s.cas, ca.store.Counted
  issued : ∀ crl ∈ s.issued, crl.version = 0 → crl.revokedSerials = []
  verifiers : ∀ v ∈ s.verifiers, v.Sound s.issued

theorem Cluster.sound_init : Cluster.init.Sound := ⟨nofun, nofun, nofun⟩

theorem forall_mem_set {α : Type*} {P : α → Prop} {xs : List α} {y : α} (h : ∀ x ∈ xs, P x)
    (hy : P y) : ∀ x ∈ xs.set i y, P x := by
  intro x hx
  rcases List.mem_or_eq_of_mem_set hx with hx | rfl
  · exact h x hx
  · exact hy

theorem Cluster.Sound.moved (h : s.Sound) (hmoved : Moved s s') : s'.Sound := by
  cases hmoved with
  | newCa ca hcounted =>
    refine ⟨fun ca' hca' => ?_, h.issued, h.verifiers⟩
    rcases List.mem_append.mp hca' with hca' | hca'
    · exact h.cas ca' hca'
    · obtain rfl := List.mem_singleton.mp hca'
      exact hcounted
  | ca i before after revocations hbefore _ hcounted =>
    exact ⟨forall_mem_set h.cas (hcounted (h.cas before (List.mem_of_getElem? hbefore))), h.issued,
      h.verifiers⟩
  | issue i ca at' hca =>
    refine ⟨h.cas, fun crl hcrl hzero => ?_, fun v hv => ?_⟩
    · rcases List.mem_append.mp hcrl with hcrl | hcrl
      · exact h.issued crl hcrl hzero
      · obtain rfl := List.mem_singleton.mp hcrl
        have hnil : ca.store.revoked = [] := h.cas ca (List.mem_of_getElem? hca) hzero
        exact List.eq_nil_iff_forall_not_mem.mpr fun q hq => by
          rw [ClusterCa.crl, mem_signCrl, hnil] at hq
          exact List.not_mem_nil hq
    · exact (h.verifiers v hv).mono (List.subset_append_left _ _)
  | backup backups => exact ⟨h.cas, h.issued, h.verifiers⟩
  | newVerifier =>
    refine ⟨h.cas, h.issued, fun v hv => ?_⟩
    rcases List.mem_append.mp hv with hv | hv
    · exact h.verifiers v hv
    · obtain rfl := List.mem_singleton.mp hv
      exact .new
  | add i v store hv hrevoked hversion =>
    have hsound := (h.verifiers v (List.mem_of_getElem? hv)).add hrevoked hversion
    exact ⟨h.cas, h.issued, forall_mem_set h.verifiers hsound⟩
  | deliver i v crl hv =>
    have hsound := (h.verifiers v (List.mem_of_getElem? hv)).deliver crl
    exact ⟨h.cas, h.issued, forall_mem_set h.verifiers hsound⟩

theorem sound_of_run {ls : List ClusterStep}
    (hrun : (cluster lower).exec (cluster lower).init ls = some s) : s.Sound :=
  Machine.invariant_of_step (M := cluster lower) Cluster.sound_init
    (fun _ _ _ h hstep => h.moved (step_moved hstep)) hrun

theorem Cluster.Sound.exec (h : s.Sound) {ks : List ClusterStep}
    (hrun : (cluster lower).exec s ks = some s') : s'.Sound :=
  Machine.exec_invariant (M := cluster lower) (I := Cluster.Sound)
    (fun _ _ _ h _ hstep => h.moved (step_moved hstep)) h (Machine.along_true _ _) hrun

/-! ### What every order of delivery agrees on -/

theorem exists_latest {issued : List SignedCrl} (h : issued ≠ []) : ∃ crl, Latest issued crl := by
  obtain ⟨crl, hcrl, hmax⟩ := issued.toFinset.exists_max_image SignedCrl.version
    (List.toFinset_nonempty_iff _ |>.mpr h)
  exact ⟨crl, List.mem_toFinset.mp hcrl, fun other hother => hmax other (List.mem_toFinset.mpr hother)⟩

/-- A store that has got everything has what the lists of the greatest version have in common. -/
theorem Cluster.Sound.isRevoked (h : s.Sound) (hlast : ListedLast s.issued (lower q)) {v : Verifier}
    (hv : v ∈ s.verifiers) (hcomplete : v.Complete s.issued) : v.store.isRevoked lower q = true := by
  obtain ⟨hissued, hlisted⟩ := hlast
  have hsound := h.verifiers v hv
  rcases hsound.stands with hzero | ⟨crl, hcrl, hversion, hsub⟩
  · -- no list has a version, so none lists anything
    obtain ⟨crl, hlatest⟩ := exists_latest hissued
    have hversion : crl.version = 0 := Nat.le_zero.mp (hzero ▸ hsound.le crl (hcomplete crl hlatest.1))
    have hmem := hlisted crl hlatest
    rw [h.issued crl hlatest.1 hversion] at hmem
    exact absurd hmem List.not_mem_nil
  · have hlatest : Latest s.issued crl :=
      ⟨hsound.issued hcrl, fun other hother => (hsound.le other (hcomplete other hother)).trans_eq
        hversion.symm⟩
    exact decide_eq_true (hsub (hlisted crl hlatest))

theorem getElem?_setVerifier {v v' : Verifier} (h : s.verifiers[i]? = some v) :
    (s.setVerifier i v').verifiers[i]? = some v' :=
  List.getElem?_set_self (List.getElem?_eq_some_iff.mp h).1

theorem exec_deliver {v : Verifier} (hv : s.verifiers[i]? = some v) (crls : List SignedCrl) :
    ∃ s', (cluster lower).exec s (crls.map (.deliver i)) = some s' ∧ s'.issued = s.issued ∧
      s'.verifiers[i]? = some (crls.foldl (Verifier.deliver s.issued) v) := by
  induction crls generalizing s v with
  | nil => exact ⟨s, rfl, rfl, hv⟩
  | cons crl crls ih =>
    have hstep : (cluster lower).step s (.deliver i crl) =
        some (s.setVerifier i (v.deliver s.issued crl)) := by
      show (s.verifiers[i]?).map _ = _
      rw [hv]
      rfl
    obtain ⟨s', hrun, hissued, hv'⟩ := ih (getElem?_setVerifier hv)
    exact ⟨s', Machine.exec_cons_eq_some.mpr ⟨_, hstep, hrun⟩, hissued, hv'⟩

theorem foldl_deliver {issued crls : List SignedCrl} {v : Verifier} (hcrls : crls ⊆ issued)
    (hle : ∀ crl ∈ crls, crl.version ≤ v.store.crlVersion) :
    (crls.foldl (Verifier.deliver issued) v).store = v.store ∧
      ∀ crl, crl ∈ v.delivered ∨ crl ∈ crls →
        crl ∈ (crls.foldl (Verifier.deliver issued) v).delivered := by
  induction crls generalizing v with
  | nil => exact ⟨rfl, fun crl hcrl => hcrl.elim id fun h => absurd h List.not_mem_nil⟩
  | cons crl crls ih =>
    obtain ⟨hcrl, hcrls⟩ := List.cons_subset.mp hcrls
    obtain ⟨hfirst, hle⟩ := List.forall_mem_cons.mp hle
    have hstore : (v.deliver issued crl).store = v.store := by
      rcases applyCrl_cases (crl ∈ issued) with
        ⟨-, hlt, -⟩ | ⟨-, hstore⟩
      · exact absurd hfirst (not_le.mpr hlt)
      · exact hstore
    have hdelivered : (v.deliver issued crl).delivered = crl :: v.delivered := if_pos hcrl
    obtain ⟨hrest, hmem⟩ := ih (v := v.deliver issued crl) hcrls (by rwa [hstore])
    refine ⟨hrest.trans hstore, fun other hother => hmem other ?_⟩
    rw [hdelivered]
    rcases hother with hother | hother
    · exact .inl (List.mem_cons_of_mem _ hother)
    · rcases List.mem_cons.mp hother with rfl | hother
      · exact .inl List.mem_cons_self
      · exact .inr hother

/-- A new store to which a list of the greatest version is delivered first, and then everything,
ends up with what that list says. -/
theorem exists_delivered (s : Cluster) {crl : SignedCrl} (hlatest : Latest s.issued crl) :
    ∃ ks s', (cluster lower).exec s ks = some s' ∧ s'.issued = s.issued ∧
      ∃ v ∈ s'.verifiers, v.Complete s'.issued ∧ v.store.revoked ⊆ crl.revokedSerials := by
  let v₀ : Verifier := ⟨.new, []⟩
  let s₀ : Cluster := { s with verifiers := s.verifiers ++ [v₀] }
  have hv₀ : s₀.verifiers[s.verifiers.length]? = some v₀ := List.getElem?_concat_length
  obtain ⟨s', hrun, hissued, hv⟩ := exec_deliver hv₀ (crl :: s.issued)
  -- after the first delivery the store stands at the greatest version
  have hfirst : (v₀.deliver s.issued crl).store.crlVersion = crl.version ∧
      (v₀.deliver s.issued crl).store.revoked ⊆ crl.revokedSerials := by
    rcases applyCrl_cases (crl ∈ s.issued) with ⟨-, -, hstore⟩ | ⟨hle, hstore⟩
    · have hstore : (v₀.deliver s.issued crl).store = v₀.store.accept crl := hstore
      rw [hstore]
      exact ⟨rfl, fun q hq => (mem_revoked_accept.mp hq).resolve_left List.not_mem_nil⟩
    · have hstore : (v₀.deliver s.issued crl).store = v₀.store := hstore
      rw [hstore]
      exact ⟨(Nat.le_zero.mp (hle (by simpa using hlatest.1))).symm, List.nil_subset _⟩
  obtain ⟨hstore, hmem⟩ := foldl_deliver (v := v₀.deliver s.issued crl) (List.Subset.refl s.issued)
    fun other hother => (hlatest.2 other hother).trans_eq hfirst.1.symm
  refine ⟨.newVerifier :: (crl :: s.issued).map (.deliver s.verifiers.length), s',
    Machine.exec_cons_eq_some.mpr ⟨s₀, rfl, hrun⟩, hissued, _, List.mem_of_getElem? hv, ?_, ?_⟩
  · rw [hissued]
    exact fun other hother => hmem other (.inr hother)
  · show (s.issued.foldl (Verifier.deliver s.issued) (v₀.deliver s.issued crl)).store.revoked ⊆ _
    rw [hstore]
    exact hfirst.2

/-- **What becomes of a revocation.** A serial revoked in a store stays revoked there. A list takes
effect only where its version is the greatest so far, so a serial is rejected after every delivery
of everything that was issued exactly if it is on every list of the greatest version. -/
theorem revoked_everywhere_iff {ls : List ClusterStep}
    (hrun : (cluster lower).exec (cluster lower).init ls = some s) :
    (∀ ks s', (cluster lower).exec s ks = some s' → Remembers s s') ∧
      ∀ q, RejectedOnceDelivered lower s q ↔ ListedLast s.issued (lower q) := by
  refine ⟨fun ks s' => remembers_of_exec, fun q => ⟨fun hrejected => ⟨?_, ?_⟩, ?_⟩⟩
  · -- without any list a new store has got everything
    intro hnil
    have hnew := hrejected [.newVerifier] _ rfl rfl ⟨.new, []⟩
      (List.mem_append_right _ List.mem_cons_self) (by rw [Verifier.Complete]; simp [hnil])
    exact absurd (of_decide_eq_true hnew) List.not_mem_nil
  · intro crl hlatest
    obtain ⟨ks, s', hrun', hissued, v, hv, hcomplete, hsub⟩ :=
      exists_delivered s hlatest
    exact hsub (of_decide_eq_true (hrejected ks s' hrun' hissued v hv hcomplete))
  · intro hlast ks s' hrun' hissued v hv hcomplete
    exact ((sound_of_run hrun).exec hrun').isRevoked (hissued ▸ hlast) hv hcomplete

/-! ### Two CAs of one cluster -/

def twoCas : List ClusterStep :=
  let first : SignedCrl := ⟨1, 0, ["aa".toList]⟩
  let second : SignedCrl := ⟨1, 0, ["bb".toList]⟩
  [.buildFromKey "01".toList [], .buildFromKey "01".toList [], .revoke 0 "aa".toList,
    .revoke 1 "bb".toList, .issue 0 0, .issue 1 0, .newVerifier, .deliver 0 first,
    .deliver 0 second]

/-- A CA that takes over the other's list before it revokes has both serials on its own. -/
def oneAfterTheOther : List ClusterStep :=
  [.buildFromKey "01".toList [], .buildFromKey "01".toList [], .revoke 0 "aa".toList, .issue 0 0,
    .applyCrl 1 ⟨1, 0, ["aa".toList]⟩, .revoke 1 "bb".toList, .issue 1 0]

theorem revoked_everywhere_one_after_the_other :
    ∃ s, (cluster id).exec (cluster id).init oneAfterTheOther = some s ∧
      RejectedOnceDelivered id s "aa".toList := by
  refine ⟨_, rfl, ((@revoked_everywhere_iff id _ oneAfterTheOther rfl).2 _).mpr ⟨nofun, ?_⟩⟩
  rintro crl ⟨hcrl, hmax⟩
  have hge := hmax ⟨2, 0, ["aa".toList, "bb".toList]⟩ (by decide)
  -- the list of version one is not the latest
  rcases List.mem_cons.mp hcrl with rfl | hcrl
  · exact absurd hge (by decide)
  · obtain rfl := List.mem_singleton.mp hcrl
    decide

/-- Each revocation is on a list, both lists are delivered, and the second serial is accepted. -/
theorem not_revoked_everywhere : ¬ ∀ (ls : List ClusterStep) (s : Cluster),
    (cluster id).exec (cluster id).init ls = some s →
      (∀ q ∈ s.revocations, ∃ crl ∈ s.issued, q ∈ crl.revokedSerials) →
        ∀ v ∈ s.verifiers, v.Complete s.issued →
          ∀ q ∈ s.revocations, v.store.isRevoked id q = true := by
  intro h
  have hrejected := h twoCas _ rfl (by decide) _ List.mem_cons_self (by rw [Verifier.Complete]; decide)
    "bb".toList (by decide)
  exact absurd hrejected (by decide)

end Goble.Identity
