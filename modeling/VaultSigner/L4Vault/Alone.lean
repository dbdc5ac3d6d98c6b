import VaultSigner.L4Vault.Request
import VaultSigner.L4Vault.Run

/-!
# Calls that run alone, at one time

A call that no other call interrupts, on inputs at one moment: nothing
expires between its regions, and the sweeper sleeps. What such a call does is
computed here for any crates and any vault, from what it finds there.

Results:
* `decryptKey_moves`: a passphrase that is tried, whatever happens between the
  regions.
* `unlockKey_exec`: a key that its passphrase unlocks.
* `handleGetAssertion_exec`: an assertion by a cached key, up to its last region.
* `served_walk`, `prompted_walk`, `refused_walk`: a sign request that the cache
  answers, that the passphrase does, and that it does not.
-/
namespace VaultSigner.L4
open VaultSigner.Core VaultSigner.L1 VaultSigner.L2 VaultSigner.L2.Throttle VaultSigner.L3

/-- The clock stands at `t`, and the sweeper sleeps. -/
structure In.Still (e : In) (t : Nat) : Prop where
  now : e.now = t
  swept : e.sweptAt = none

section
variable {C : Crates} {v : Vault} {e : In} {t : Nat}

theorem enter_still (he : e.Still t) (hv : v.clock = t) : v.enter e = v := by
  unfold Vault.enter
  rw [he.now, he.swept, ← hv]

theorem admits_until (he : e.Still t) (hv : v.clock ≤ t) : v.Admits e :=
  ⟨by rw [he.now]; exact hv, by rw [he.swept]; simp⟩

theorem admits_still (he : e.Still t) (hv : v.clock = t) : v.Admits e :=
  admits_until he (Nat.le_of_eq hv)

theorem exec_region_still {α : Type} (he : e.Still t) (hv : v.clock = t)
    (body : In → Vault → FacadeResult α × Vault) {r : FacadeResult α} {v' : Vault}
    (h : body e v = (r, v')) : Prog.Exec Vault.Admits (region body) v [e] r v' := by
  refine exec_op.2 ⟨e, rfl, admits_still he hv, ?_, ?_⟩
  · rw [enter_still he hv, h]
  · rw [enter_still he hv, h]

theorem exec_ask_still {α ε : Type} (he : e.Still t) (hv : v.clock = t)
    (body : In → Vault → α × Vault) {a : α} {v' : Vault} (h : body e v = (a, v')) :
    Prog.Exec Vault.Admits (ask body : Prog In Vault ε α) v [e] (.ok a) v' := by
  refine Prog.exec_atomic.2 ⟨e, rfl, admits_still he hv, ?_, ?_⟩
  · rw [enter_still he hv, h]
  · rw [enter_still he hv, h]

/-- The moves of `decrypt_key`, when a passphrase is tried: what it finds
before each of its regions, and what it leaves. -/
def triedMoves (C : Crates) (v₀ v₁ v₂ v₃ v₄ : Vault) (e : In) (k : Uuid) (b : Bytes) (pw : String)
    (ty : KeyType) (label : String) (r : VaultResult Bytes) : List Region :=
  [⟨v₀, e, v₁⟩, ⟨v₂, e, v₂⟩, ⟨v₃, e, v₃.log (.opened k b (utf8 pw) ty label r v₃.state)⟩,
    ⟨v₄, e, v₄.setThrottle (recorded v₄.throttle (SecretId.key C k) e.now r.isOk)⟩]

/-- A passphrase given to `decrypt_key`, and what becomes of it. -/
theorem decryptKey_moves {v₀ v₁ v₂ v₃ v₄ : Vault} (he : e.Still t) (hv₀ : v₀.clock ≤ t)
    (henter : v₁ = v₀.enter e) (hv₂ : v₂.clock = t) (hv₃ : v₃.clock = t) (hv₄ : v₄.clock = t)
    {c k : Uuid} {ty : KeyType}
    {label pw : String} {b : Bytes} {blob : KeyBlob}
    (ht : v₁.throttle.check (SecretId.key C k) t = .ok ())
    (hl : lookupBlob v₂.state c k = .ok (ty, label, b)) (hb : KeyBlobOf.fromBytes C b = .ok blob)
    {r : VaultResult Bytes} (hr : keyblobOpen C blob (utf8 pw) k ty label = r) :
    Prog.Walk Vault.Admits (decryptKey C c k pw) (triedMoves C v₀ v₁ v₂ v₃ v₄ e k b pw ty label r)
      (.done (r.mapError fun _ => .failed "incorrect passphrase")) := by
  unfold decryptKey
  refine Prog.Walk.seq (w := [_]) (a := ()) (walk_op.2 ⟨_, rfl, admits_until he hv₀, ?_, ?_⟩) ?_
  · simp only [← henter]
  · simp only [← henter, he.now, ht, facade]
  refine Prog.Walk.seq (w := [_]) (a := (ty, label, b))
    (Prog.exec_move (exec_region_still he hv₂ _ ?_)) ?_
  · rw [hl]
  refine Prog.Walk.seq (w := []) (a := blob) ?_ ?_
  · rw [hb]
    exact .nil _
  refine Prog.Walk.seq (w := [_]) (a := r) (Prog.exec_move (exec_ask_still he hv₃ _ ?_)) ?_
  · simp only [hr]
  cases r with
  | ok sk =>
    exact Prog.Walk.seq (w := [_]) (a := ()) (Prog.exec_move (exec_ask_still he hv₄ _ rfl)) (.nil _)
  | error x =>
    refine Prog.Walk.seq (w := [_]) (a := ()) (Prog.exec_move (exec_ask_still he hv₄ _ ?_)) (.nil _)
    rw [he.now]
    rfl

theorem decryptKey_exec (he : e.Still t) (hv : v.clock = t) {c k : Uuid} {ty : KeyType}
    {label pw : String} {b : Bytes} {blob : KeyBlob}
    (ht : v.throttle.check (SecretId.key C k) t = .ok ())
    (hl : lookupBlob v.state c k = .ok (ty, label, b)) (hb : KeyBlobOf.fromBytes C b = .ok blob)
    {r : VaultResult Bytes} (hr : keyblobOpen C blob (utf8 pw) k ty label = r) :
    Prog.Exec Vault.Admits (decryptKey C c k pw) v [e, e, e, e]
      (r.mapError fun _ => .failed "incorrect passphrase")
      ((v.log (.opened k b (utf8 pw) ty label r v.state)).setThrottle
        (recorded v.throttle (SecretId.key C k) e.now r.isOk)) := by
  have hopened : (v.log (.opened k b (utf8 pw) ty label r v.state)).clock = t := hv
  exact Prog.walk_exec
    (decryptKey_moves he (Nat.le_of_eq hv) (enter_still he hv).symm hv hv hopened ht hl hb hr) rfl
    ⟨rfl, rfl, rfl, rfl, rfl⟩

theorem recordSuccess_exec {ε : Type} (he : e.Still t) (hv : v.clock = t) (s : SecretId) :
    Prog.Exec Vault.Admits (recordSuccess s : Prog In Vault ε _) v [e] (.ok ())
      (v.setThrottle (v.throttle.recordSuccess s)) := exec_ask_still he hv _ rfl

theorem recordFailure_exec {ε : Type} (he : e.Still t) (hv : v.clock = t) (s : SecretId) :
    Prog.Exec Vault.Admits (recordFailure s : Prog In Vault ε _) v [e] (.ok ())
      (v.setThrottle (v.throttle.recordFailure s e.now)) := exec_ask_still he hv _ rfl

/-- The passphrase puts the key in the cache. -/
theorem unlockKey_exec (he : e.Still t) (hv : v.clock = t) {compartment key pw label : String}
    {c k : Uuid} {ty : KeyType} {b sk : Bytes} {blob : KeyBlob}
    (hc : parseUuid C compartment = .ok c) (hk : parseUuid C key = .ok k)
    (ht : v.throttle.check (SecretId.key C k) t = .ok ())
    (hl : lookupBlob v.state c k = .ok (ty, label, b)) (hb : KeyBlobOf.fromBytes C b = .ok blob)
    (ho : keyblobOpen C blob (utf8 pw) k ty label = .ok sk) (secs : UInt32)
    (hsecs : secs ≤ Retention.maxRetentionSecs) :
    ∃ v', Prog.Exec Vault.Admits ((Call.unlockKey compartment key pw secs).run C) v [e, e, e, e, e]
        (.ok .unit) v' ∧
      v'.state = v.state ∧ v'.clock = t ∧
      v'.throttle = v.throttle.recordSuccess (SecretId.key C k) ∧
      v'.retention = v.retention.put k ⟨sk, t + Retention.fromSecs secs, secs == 0⟩ := by
  obtain ⟨w, hw⟩ : ∃ w, w = (v.log (.opened k b (utf8 pw) ty label (.ok sk) v.state)).setThrottle
      (v.throttle.recordSuccess (SecretId.key C k)) := ⟨_, rfl⟩
  obtain ⟨v', hv'⟩ : ∃ v', v' = (w.setRetention (v.retention.put k
      ⟨sk, e.now + Retention.fromSecs secs, secs == 0⟩)).log (.cached k sk secs e.now) := ⟨_, rfl⟩
  have hclock : w.clock = t := by rw [hw]; exact hv
  have hinsert : Retention.insert w.retention k sk secs e.now =
      .ok (v.retention.put k ⟨sk, e.now + Retention.fromSecs secs, secs == 0⟩) :=
    Retention.insert_ok.2 ⟨hsecs, by rw [hw]; rfl⟩
  have hdec : Prog.Exec Vault.Admits (decryptKey C c k pw) v [e, e, e, e] (.ok sk) w := by
    rw [hw]
    exact decryptKey_exec he hv ht hl hb ho
  have hcache : Prog.Exec Vault.Admits (cacheKey k sk secs : Prog In Vault FacadeError _) w [e]
      (.ok (.ok ())) v' := by
    refine exec_ask_still he hclock _ ?_
    rw [hinsert, hv']
  have hx : Prog.Exec Vault.Admits (unlockKey C compartment key pw secs) v ([e, e, e, e] ++ [e])
      (.ok ()) v' := by
    unfold unlockKey
    rw [hc, hk]
    exact hdec.seq (hcache.seq_last rfl)
  refine ⟨v', exec_replying.2 ⟨_, hx, rfl⟩, ?_⟩
  subst hv' hw
  exact ⟨rfl, hv, rfl, by rw [← he.now]; rfl⟩

/-- The vault after a signature by a key that is in the cache as `c`. -/
def Vault.used (v : Vault) (k : Uuid) (c : Retention.CachedKey) (now : Nat) : Vault :=
  (v.setRetention (if c.singleUse then v.retention.del k else v.retention)).log
    (.signed k c.bytes now v.state)

theorem useKey_exec {ε : Type} (he : e.Still t) (hv : v.clock = t) {k : Uuid}
    {c : Retention.CachedKey} (hk : v.retention.get k = some c) (hlive : c.Live t) {ty : KeyType}
    {m sig : Bytes} (hs : keysSign C ty c.bytes m = .ok sig) :
    Prog.Exec Vault.Admits (useKey C k ty m : Prog In Vault ε _) v [e] (.ok (some (.ok sig)))
      (v.used k c t) := by
  refine exec_ask_still he hv _ ?_
  rcases Retention.useKey_cases v.retention k e.now fun bytes => (bytes, keysSign C ty bytes m) with
    ⟨hn, -⟩ | ⟨c', hk', hdead, -⟩ | ⟨c', hk', -, hu⟩
  · rw [hk] at hn
    cases hn
  · rw [hk] at hk'
    cases hk'
    rw [he.now] at hdead
    exact absurd hlive hdead
  · rw [hk] at hk'
    cases hk'
    rw [hu]
    simp only [hs, he.now]
    rfl

theorem containsKey_exec {ε : Type} (he : e.Still t) (hv : v.clock = t) {k : Uuid}
    {c : Retention.CachedKey} (hk : v.retention.get k = some c) (hlive : c.Live t) :
    Prog.Exec Vault.Admits (containsKey k : Prog In Vault ε _) v [e] (.ok true) v := by
  refine exec_ask_still he hv _ ?_
  have hc : Retention.contains v.retention k e.now = true :=
    (Retention.contains_iff _ _ _).2 ⟨c, hk, by rw [he.now]; exact hlive⟩
  rw [hc]

/-- An assertion by a cached key, up to its last region. -/
theorem handleGetAssertion_exec (he : e.Still t) (hv : v.clock = t) {request : GetAssertionRequest}
    {chosen : CredentialCandidate} {authData sig : Bytes} {held : Retention.CachedKey}
    {ty : KeyType} {c : Uuid} {o : GetAssertionOutcome}
    (hp : prepareAssertion C request true true (credentialsForRp C e.orders v.state request.rpId) =
      .ok (chosen, authData)) (hf : findKeyAnywhere e.orders v.state chosen.keyId = some (ty, c))
    (hk : v.retention.get chosen.keyId = some held) (hlive : held.Live t)
    (hs : keysSign C ty held.bytes (authData ++ request.clientDataHash) = .ok sig)
    (ho : finishAssertion C request chosen authData (some sig) = .ok o) :
    Prog.Exec Vault.Admits (handleGetAssertion C (ctap2Backend C true) request true true) v
    [e, e, e, e]
      (.ok o) (v.used chosen.keyId held t) := by
  unfold handleGetAssertion
  refine Prog.Exec.seq (a := credentialsForRp C e.orders v.state request.rpId) (w := v)
    (exec_ask_still he hv (fun e v => (credentialsForRp C e.orders v.state request.rpId, v)) rfl) ?_
  refine Prog.Exec.seq_done hp ?_
  refine Prog.Exec.seq_last (a := some sig) ?_ (by simp only [ho]; rfl)
  show Prog.Exec Vault.Admits (ctap2Sign C true chosen.keyId (authData ++ request.clientDataHash))
    _ _ _ _
  unfold ctap2Sign
  refine Prog.Exec.seq (a := some (ty, c)) (w := v) (exec_ask_still he hv _ (by rw [hf])) ?_
  refine Prog.Exec.seq (containsKey_exec he hv hk hlive) ?_
  exact Prog.Exec.seq_last (useKey_exec he hv hk hlive hs) rfl

theorem persistLocked_goesThrough {s : VaultState} {c : Uuid}
    (hg : GoesThrough C e s (.persist c)) :
    ∃ w, persistLocked C e (v.setState s) c = (.ok (), w) ∧ w.state = inMemory C e s (.persist c) ∧
      w = { v with state := w.state, disk := w.disk } := by
  obtain ⟨hr, hs, -⟩ := mutate_goesThrough e v (d := ⟨s, .persist c, ()⟩) hg
  have hframe := mutate_frame (C := C) e v (.ok ⟨s, .persist c, ()⟩ : FacadeResult (Edit Unit))
  simp only [mutate, finish, returning] at hr hs hframe
  cases hp : persistLocked C e (v.setState s) c with
  | mk r w =>
    rw [hp] at hr hs hframe
    cases r with
    | error x => cases hr
    | ok _ => exact ⟨w, rfl, hs, hframe⟩

end

/-! ## Sign requests -/

section
variable {C : Crates} {v₀ v : Vault} {e : In} {t : Nat} {raw message : Bytes} {k : Uuid}

/-- A sign request by a key that is not locked out, up to time `t` in `v₀` and
from then on in `v`: the check, the backend, the record. -/
theorem asked_walk (he : e.Still t) (hv₀ : v₀.clock ≤ t) (hv : v = v₀.enter e)
    (hr : SignRequest C raw k message) (ht : v.throttle.check (SecretId.key C k) t = .ok ())
    {w w' : List Region} {o : Protocol.SignOutcome} {reply : Value → Bytes}
    (hs : Prog.Walk Vault.Admits (protocolSign C k message : Op Protocol.SignOutcome) w
      (.done (.ok o)))
    (hreply : ∀ id,
      Prog.Walk Vault.Admits (Protocol.replyToSign C vaultThrottling (SecretId.key C k) id o) w'
      (.done (.ok (reply id)))) (caller : String) :
    ∃ id, Prog.Walk Vault.Admits (handleProtocolRequest C caller raw) (⟨v₀, e, v⟩ :: (w ++ w'))
      (.done (.ok (reply id))) := by
  obtain ⟨id, heq⟩ := request_of_sign hr caller
  refine ⟨id, ?_⟩
  rw [heq]
  refine walk_ask_bind.2 ⟨_, _, rfl, admits_until he hv₀, hv, ?_⟩
  rw [hv, Vault.enter_throttle] at ht
  simp only [Vault.enter_throttle, he.now, ht]
  exact hs.seq (hreply id)

theorem protocolUse_exec {ε : Type} (he : e.Still t) (hv : v.clock = t)
    {entry : Retention.CachedKey} (hk : v.retention.get k = some entry) (hlive : entry.Live t)
    {ty : KeyType} {sig : Bytes} (hs : keysSign C ty entry.bytes message = .ok sig)
    (publicKey : Bytes) :
    Prog.Exec Vault.Admits (protocolUse C k ty publicKey message : Prog In Vault ε _) v [e]
      (.ok (.signed sig publicKey)) (v.used k entry t) :=
  Prog.Exec.seq_last (useKey_exec he hv hk hlive hs) rfl

section
variable {ty : KeyType} {publicKey : Bytes} {c : Uuid}

/-- The moves of a sign request that the cache answers. -/
def servedMoves (C : Crates) (v₀ v : Vault) (e : In) (k : Uuid) (entry : Retention.CachedKey) :
    List Region :=
  let signed := v.used k entry e.now
  [⟨v₀, e, v⟩, ⟨v, e, v⟩, ⟨v, e, v⟩, ⟨v, e, signed⟩,
    ⟨signed, e, signed.setThrottle (signed.throttle.recordSuccess (SecretId.key C k))⟩]

theorem served_walk (he : e.Still t) (hv₀ : v₀.clock ≤ t) (henter : v = v₀.enter e)
    (hr : SignRequest C raw k message) (caller : String)
    (ht : v.throttle.check (SecretId.key C k) t = .ok ())
    (hf : findForProtocol e.orders v.state k = some (ty, publicKey, c))
    {entry : Retention.CachedKey} (hk : v.retention.get k = some entry) (hlive : entry.Live t)
    {sig : Bytes} (hs : keysSign C ty entry.bytes message = .ok sig) :
    ∃ id, Prog.Walk Vault.Admits (handleProtocolRequest C caller raw) (servedMoves C v₀ v e k entry)
      (.done (.ok (signatureReply C id sig publicKey))) := by
  have hv : v.clock = t := by rw [henter]; exact he.now
  have ha := admits_still he hv
  have hsigned : (v.used k entry e.now).clock = t := hv
  have hheld : Retention.contains v.retention k e.now = true :=
    (Retention.contains_iff _ _ _).2 ⟨entry, hk, by rw [he.now]; exact hlive⟩
  refine asked_walk (o := .signed sig publicKey)
    (w := [⟨v, e, v⟩, ⟨v, e, v⟩, ⟨v, e, v.used k entry e.now⟩]) he hv₀ henter hr ht ?_
    (fun id => ?_) caller
  · unfold protocolSign
    refine walk_ask_bind.2 ⟨_, _, rfl, ha, (enter_still he hv).symm, ?_⟩
    simp only [Vault.enter_state, hf]
    refine walk_ask_bind.2 ⟨_, _, rfl, ha, (enter_still he hv).symm, ?_⟩
    simp only [enter_still he hv, hheld, if_true]
    rw [he.now]
    exact Prog.exec_move (protocolUse_exec he hv hk hlive hs publicKey)
  · exact (Prog.exec_move (recordSuccess_exec he hsigned (SecretId.key C k))).seq (.nil _)

/-- A prompt that is answered: what follows it is the passphrase's outcome. -/
theorem prompted_sign (he : e.Still t) (hv : v.clock = t)
    (hf : findForProtocol e.orders v.state k = some (ty, publicKey, c))
    (hnot : Retention.contains v.retention k t = false) {pw : String} (hreply : e.reply = some pw)
    {w w' : List Region} {q : FacadeResult Bytes} {o : Protocol.SignOutcome}
    (hd : Prog.Walk Vault.Admits (decryptKey C c k pw) w (.done q))
    (hw : (∃ x, q = .error x ∧ w' = [] ∧ o = .passphraseIncorrect) ∨ ∃ sk m w₁, q = .ok sk ∧
      w' = m :: w₁ ∧ Prog.Walk Vault.Admits (cacheKey k sk Retention.defaultRetentionSecs : Op _)
      [m] (.done (.ok (.ok ()))) ∧
      Prog.Walk Vault.Admits (protocolUse C k ty publicKey message : Op _) w₁ (.done (.ok o))) :
    Prog.Walk Vault.Admits (protocolSign C k message : Op Protocol.SignOutcome)
      (⟨v, e, v⟩ :: ⟨v, e, v⟩ :: ⟨v, e, v⟩ :: (w ++ w')) (.done (.ok o)) := by
  have ha := admits_still he hv
  unfold protocolSign
  refine walk_ask_bind.2 ⟨_, _, rfl, ha, (enter_still he hv).symm, ?_⟩
  simp only [Vault.enter_state, hf]
  refine walk_ask_bind.2 ⟨_, _, rfl, ha, (enter_still he hv).symm, ?_⟩
  simp only [enter_still he hv, he.now, hnot]
  refine walk_ask_bind.2 ⟨_, _, rfl, ha, (enter_still he hv).symm, ?_⟩
  simp only [hreply]
  refine Prog.Walk.seq (Prog.walk_attempt.2 ⟨q, rfl, hd⟩) ?_
  rcases hw with ⟨x, rfl, rfl, rfl⟩ | ⟨sk, m, w₁, rfl, rfl, hcache, huse⟩
  · exact .nil _
  · exact hcache.seq huse

/-- The moves of a sign request whose prompt is answered with a wrong passphrase. -/
def refusedMoves (C : Crates) (v₀ v : Vault) (e : In) (k : Uuid) (b : Bytes) (pw : String)
    (ty : KeyType) (label : String) (x : VaultError) : List Region :=
  let opened := v.log (.opened k b (utf8 pw) ty label (.error x) v.state)
  let failed := opened.setThrottle (v.throttle.recordFailure (SecretId.key C k) e.now)
  [⟨v₀, e, v⟩, ⟨v, e, v⟩, ⟨v, e, v⟩, ⟨v, e, v⟩] ++ triedMoves C v v v v opened e k b pw ty label
    (.error x) ++
    [⟨failed, e, failed.setThrottle (failed.throttle.recordFailure (SecretId.key C k) e.now)⟩]

theorem refused_walk (he : e.Still t) (hv₀ : v₀.clock ≤ t) (henter : v = v₀.enter e)
    (hr : SignRequest C raw k message) (caller : String)
    (ht : v.throttle.check (SecretId.key C k) t = .ok ())
    (hf : findForProtocol e.orders v.state k = some (ty, publicKey, c))
    (hnot : Retention.contains v.retention k t = false) {pw label : String}
    (hreply : e.reply = some pw) {ty' : KeyType} {b : Bytes}
    (hl : lookupBlob v.state c k = .ok (ty', label, b)) {blob : KeyBlob}
    (hb : KeyBlobOf.fromBytes C b = .ok blob) {x : VaultError}
    (ho : keyblobOpen C blob (utf8 pw) k ty' label = .error x) :
    ∃ id, Prog.Walk Vault.Admits (handleProtocolRequest C caller raw)
    (refusedMoves C v₀ v e k b pw ty' label x)
      (.done (.ok (Protocol.errorResponse C id "passphrase_incorrect"
        "incorrect passphrase"))) := by
  have hv : v.clock = t := by rw [henter]; exact he.now
  have hopened : (v.log (.opened k b (utf8 pw) ty' label (.error x) v.state)).clock = t := hv
  have hd :=
    decryptKey_moves he (Nat.le_of_eq hv) (enter_still he hv).symm hv hv hopened ht hl hb ho
  have hfailed : ((v.log (.opened k b (utf8 pw) ty' label (.error x) v.state)).setThrottle
      (v.throttle.recordFailure (SecretId.key C k) e.now)).clock = t := hv
  have hsign : Prog.Walk Vault.Admits (protocolSign C k message : Op Protocol.SignOutcome) _ _ :=
    prompted_sign he hv hf hnot hreply hd (.inl ⟨_, rfl, rfl, rfl⟩)
  rw [List.append_nil] at hsign
  exact asked_walk he hv₀ henter hr ht hsign
    (fun id => (Prog.exec_move (recordFailure_exec he hfailed (SecretId.key C k))).seq (.nil _))
      caller

end

end

end VaultSigner.L4
