import Mathlib.Data.Char
import Mathlib.Data.List.Lex
import Mathlib.Data.List.Sort
import Goble.Lib.Text

/-!
# Certificates and revocation lists

Every participant of a cluster has a `CertificateStore`: the certificates it knows, the serials
that were revoked, and the version of the revocation list it stands at. The owner of the cluster
key has a `ClusterCa` over such a store, which revokes serials and signs the list.

A list is taken over only if its version is greater than the one of the store, and then its serials
are added to those the store has. The version is counted by each store for itself, from zero, and a
CA that is rebuilt from the key, a snapshot or a backup starts with a new store.
-/

namespace Goble.Identity

/-- A serial number, in hexadecimal. -/
abbrev Serial := List Char

/-- A revocation list. Its signature is not here: whether a list verifies is said where it is
applied. -/
structure SignedCrl where
  version : Nat
  issuedAt : Int
  revokedSerials : List Serial
deriving DecidableEq, Repr

/-- The certificates known to a participant and the state of revocation. -/
structure CertificateStore where
  /-- The active certificates, by serial. -/
  active : Serial → Option (List Char)
  revoked : List Serial
  crlVersion : Nat
  crl : Option SignedCrl

inductive CrlError where
  | badSignature
deriving DecidableEq, Repr

namespace CertificateStore

-- `to_lowercase`, which follows the Unicode tables
variable (lower : Serial → Serial)

def new : CertificateStore := ⟨fun _ => none, [], 0, none⟩

def add (store : CertificateStore) (serial : Serial) (certPem : List Char) :
    Option CertificateStore :=
  if serial ∈ store.revoked then none
  else some { store with active := Function.update store.active serial (some certPem) }

/-- The certificate of the CA is not checked against the revoked ones. -/
def addCa (store : CertificateStore) (serial : Serial) (certPem : List Char) : CertificateStore :=
  { store with active := Function.update store.active serial (some certPem) }

def revoke (store : CertificateStore) (serial : Serial) : CertificateStore :=
  { store with
    active := Function.update store.active (lower serial) none
    revoked := store.revoked.insert (lower serial) }

def isRevoked (store : CertificateStore) (serial : Serial) : Bool := lower serial ∈ store.revoked

def isActive (store : CertificateStore) (serial : Serial) : Bool :=
  (store.active (lower serial)).isSome

def signCrl (store : CertificateStore) (at' : Int) : SignedCrl :=
  ⟨store.crlVersion, at', store.revoked.insertionSort (· ≤ ·)⟩

def accept (store : CertificateStore) (crl : SignedCrl) : CertificateStore :=
  let revoked := crl.revokedSerials.foldl (fun revoked serial => revoked.insert serial) store.revoked
  { active := fun serial => if serial ∈ revoked then none else store.active serial
    revoked
    crlVersion := crl.version
    crl := some crl }

def applyCrl (verified : Bool) (store : CertificateStore) (crl : SignedCrl) :
    Except CrlError Bool × CertificateStore :=
  if crl.version ≤ store.crlVersion then (.ok false, store)
  else if !verified then (.error .badSignature, store)
  else (.ok true, store.accept crl)

end CertificateStore

/-- The store of a CA. Its key and its certificate are the same for every CA of the cluster. -/
structure ClusterCa where
  store : CertificateStore

namespace ClusterCa

variable (lower : Serial → Serial)

def buildFromKey (serial : Serial) (certPem : List Char) : ClusterCa :=
  ⟨CertificateStore.new.addCa serial certPem⟩

/-- Revokes a certificate and counts the version up. -/
def revoke (ca : ClusterCa) (serial : Serial) : ClusterCa :=
  if ca.store.isActive lower serial || !ca.store.isRevoked lower serial then
    ⟨{ ca.store.revoke lower serial with crlVersion := ca.store.crlVersion + 1 }⟩
  else ca

def crl (ca : ClusterCa) (at' : Int) : SignedCrl := ca.store.signCrl at'

def applyCrl (verified : Bool) (ca : ClusterCa) (crl : SignedCrl) :
    Except CrlError Bool × ClusterCa :=
  if !verified then (.error .badSignature, ca)
  else if crl.version ≤ ca.store.crlVersion then (.ok false, ca)
  else (.ok true, ⟨ca.store.accept crl⟩)

/-- A CA from a backup: a new store in which the serials of the backup are revoked again. -/
def restoreCa (serial : Serial) (certPem : List Char) (revokedSerials : List Serial) : ClusterCa :=
  revokedSerials.foldl (revoke lower) (buildFromKey serial certPem)

end ClusterCa

/-! ### What the operations do to the revoked serials -/

variable {lower : Serial → Serial} {store : CertificateStore} {ca : ClusterCa} {crl : SignedCrl}
  {q serial : Serial}

theorem mem_foldl_insert {serials revoked : List Serial} :
    q ∈ serials.foldl (fun revoked serial => revoked.insert serial) revoked ↔
      q ∈ revoked ∨ q ∈ serials := by
  induction serials generalizing revoked with
  | nil => simp
  | cons serial serials ih =>
    rw [List.foldl_cons, ih, List.mem_insert_iff, List.mem_cons, or_assoc, or_left_comm]

@[simp] theorem mem_revoked_accept :
    q ∈ (store.accept crl).revoked ↔ q ∈ store.revoked ∨ q ∈ crl.revokedSerials :=
  mem_foldl_insert

@[simp] theorem accept_crlVersion : (store.accept crl).crlVersion = crl.version := rfl

@[simp] theorem mem_signCrl {at' : Int} :
    q ∈ (store.signCrl at').revokedSerials ↔ q ∈ store.revoked :=
  List.mem_insertionSort _

theorem applyCrl_store (verified : Bool) :
    (ca.applyCrl verified crl).2.store = (ca.store.applyCrl verified crl).2 := by
  rw [ClusterCa.applyCrl, CertificateStore.applyCrl]
  by_cases hle : crl.version ≤ ca.store.crlVersion
  · rw [if_pos hle, if_pos hle]
    cases verified <;> rfl
  · rw [if_neg hle, if_neg hle]
    cases verified <;> rfl

theorem applyCrl_cases (verified : Bool) :
    (verified = true ∧ store.crlVersion < crl.version ∧
      (store.applyCrl verified crl).2 = store.accept crl) ∨
    ((verified = true → crl.version ≤ store.crlVersion) ∧
      (store.applyCrl verified crl).2 = store) := by
  rw [CertificateStore.applyCrl]
  split
  · next hle => exact .inr ⟨fun _ => hle, rfl⟩
  · next hlt =>
    cases verified with
    | false => exact .inr ⟨fun h => absurd h (by simp), rfl⟩
    | true => exact .inl ⟨rfl, not_le.mp hlt, rfl⟩

def CertificateStore.Counted (store : CertificateStore) : Prop :=
  store.crlVersion = 0 → store.revoked = []

namespace CertificateStore.Counted

theorem applyCrl (h : store.Counted) (verified : Bool) :
    (store.applyCrl verified crl).2.Counted := by
  rcases applyCrl_cases verified with ⟨-, hlt, heq⟩ | ⟨-, heq⟩
  · rw [heq]
    intro hzero
    rw [accept_crlVersion] at hzero
    exact absurd (hzero ▸ hlt) (Nat.not_lt_zero _)
  · rw [heq]
    exact h

theorem revoke (h : ca.store.Counted) (serial : Serial) : (ca.revoke lower serial).store.Counted := by
  rw [ClusterCa.revoke]
  split
  · exact fun hzero => absurd hzero (Nat.succ_ne_zero _)
  · exact h

theorem restoreCa (certPem : List Char) (revokedSerials : List Serial) :
    (ClusterCa.restoreCa lower serial certPem revokedSerials).store.Counted := by
  rw [ClusterCa.restoreCa]
  suffices h : ∀ ca : ClusterCa, ca.store.Counted →
      (revokedSerials.foldl (ClusterCa.revoke lower) ca).store.Counted from h _ fun _ => rfl
  induction revokedSerials with
  | nil => exact fun _ h => h
  | cons serial revokedSerials ih => exact fun ca h => ih _ (h.revoke serial)

end CertificateStore.Counted

theorem mem_revoked_of_revoke (h : q ∈ ca.store.revoked) :
    q ∈ (ca.revoke lower serial).store.revoked := by
  rw [ClusterCa.revoke]
  split
  · exact List.mem_insert_of_mem h
  · exact h

theorem mem_revoked_of_applyCrl (h : q ∈ store.revoked) (verified : Bool) :
    q ∈ (store.applyCrl verified crl).2.revoked := by
  rcases applyCrl_cases verified with ⟨-, -, heq⟩ | ⟨-, heq⟩
  · rw [heq]
    exact mem_revoked_accept.mpr (.inl h)
  · rw [heq]
    exact h

end Goble.Identity
