import VaultSigner.L4Vault.Sample

/-!
# The cost of a master key (`kdf_params_master`)

A compartment's header names the parameters its master key is derived with.
They come from the benchmark of `create`, `add_compartment` and merge option
2, which never goes below the floor, or under option 3 from the caller's JSON,
which nothing compares with the floor.

Results:
* `Call.Edits.compartments`: what an edit does to the header's compartments.
* `run_meetsFloor_iff`: when every compartment of every state of a run meets
  the floor.
-/
namespace VaultSigner.L5
open VaultSigner.Core VaultSigner.L1 VaultSigner.L3 VaultSigner.L4

def MeetsFloor (s : VaultState) : Prop :=
  ∀ h ∈ s.container.header.compartments, meetsFloor h.kdfParamsMaster = true

section
variable (C : Crates)

/-- The parameters in an import's JSON. -/
def incomingKdf (json : String) : Option KdfParams :=
  match C.kdfParamsFromStr json with
  | .error _ => none
  | .ok doc =>
    match saltFromHex C doc.salt with
    | .error _ => none
    | .ok salt => some ⟨doc.memoryKib, doc.iterations, doc.parallelism, salt⟩

/-- If the call is an option 3 that its checks let through, the parameters it
brings meet the floor. -/
def BringsFloor (t : Turn) : Prop :=
  ∀ target json blobs passphrase kdfJson phrase,
    t.call = .mergeReplaceLocalWithIncoming target json blobs
    passphrase kdfJson phrase → ∀ e ∈ t.inputs, ∀ kdf, incomingKdf C kdfJson = some kdf →
      (∃ r, prepareMerge3 C e t.before.state target json passphrase kdfJson phrase = .ok r) →
        meetsFloor kdf = true

end

section
variable {C : Crates} {A : Vault → In → Prop}

/-! ## Where parameters come from -/

theorem prepareMerge3_kdf {e : In} {s : VaultState} {target json passphrase kdfJson phrase : String}
    {t : Uuid} {r : Merge.MergeResult} {kdf : KdfParams} {u : UnlockedCompartment} {blob : Bytes}
    (h : prepareMerge3 C e s target json passphrase kdfJson phrase = .ok (t, r, kdf, u, blob)) :
    incomingKdf C kdfJson = some kdf ∧ t ∈ headerIds s := by
  obtain ⟨incoming, -, hm, hr, -⟩ := prepareMerge3_ok h
  obtain ⟨-, updated, hu, -⟩ := (Merge.mergeReplace_ok ((Manifest.fromJson_ok C _ _).1 hm).2).1 hr
  obtain ⟨pre, c, post, hl, rfl, -⟩ := Merge.extendTarget_ok.1 hu
  refine ⟨?_, mem_headerIds (by rw [hl]; simp)⟩
  unfold prepareMerge3 at h
  unfold incomingKdf
  simp only [bind_ok, facade_ok] at h
  obtain ⟨t', -, incoming', -, h⟩ := h
  cases hd : C.kdfParamsFromStr kdfJson with
  | error m => simp only [hd, bind_ok, reduceCtorEq, false_and, exists_false] at h
  | ok doc =>
    simp only [hd, bind_ok, Except.ok.injEq] at h
    obtain ⟨doc', rfl, h⟩ := h
    cases hs : saltFromHex C doc.salt with
    | error m => simp only [hs, bind_ok, reduceCtorEq, false_and, exists_false] at h
    | ok salt =>
      simp only [hs, bind_ok, facade_ok, pure, Except.pure, Except.ok.injEq] at h
      obtain ⟨kdf', rfl, r', -, m, -, key, -, blob', -, h⟩ := h
      cases h
      simp only [hs]

theorem prepareMerge2_kdf {e : In} {s : VaultState} {json label passphrase : String}
    {profile : DeviceProfile} {r : Merge.MergeResult} {kdf : KdfParams} {u : UnlockedCompartment}
    {blob : Bytes} (h : prepareMerge2 C e s json label passphrase profile = .ok (r, kdf, u, blob)) :
    meetsFloor kdf = true := by
  unfold prepareMerge2 at h
  simp only [bind_ok, facade_ok, pure, Except.pure, Except.ok.injEq] at h
  obtain ⟨incoming, -, r', -, kdf', hk, key, -, m, -, blob', -, h⟩ := h
  cases h
  exact benchmark_meetsFloor _ _ _ _ _ hk

theorem prepareAddCompartment_kdf {e : In} {passphrase : String} {profile : DeviceProfile}
    {kdf : KdfParams} {u : UnlockedCompartment} {blob : Bytes}
    (h : prepareAddCompartment C e passphrase profile = .ok (kdf, u, blob)) :
    meetsFloor kdf = true := by
  unfold prepareAddCompartment at h
  simp only [bind_ok, facade_ok, pure, Except.pure, Except.ok.injEq] at h
  obtain ⟨kdf', hk, key, -, blob', -, h⟩ := h
  cases h
  exact benchmark_meetsFloor _ _ _ _ _ hk

/-! ## One call -/

/-- What an edit does to the header's compartments: nothing, one more that
meets the floor, or under option 3 the incoming parameters for one of them. -/
inductive HeaderEdit (C : Crates) (call : Call) (e : In) (s s' : VaultState) : Prop
  | same (h : s'.container.header = s.container.header)
  | pushed (header : CompartmentHeader) (hf : meetsFloor header.kdfParamsMaster = true)
      (h : s'.container.header.compartments = s.container.header.compartments ++ [header])
  | replaced (target json : String) (blobs : List IncomingKeyBlob)
      (passphrase kdfJson phrase : String)
      (c : Uuid) (kdf : KdfParams) (hcall : call = .mergeReplaceLocalWithIncoming target json blobs
        passphrase kdfJson phrase) (hc : c ∈ headerIds s) (hk : incomingKdf C kdfJson = some kdf)
      (hp : ∃ r, prepareMerge3 C e s target json passphrase kdfJson phrase = .ok r)
      (h : s'.container.header.compartments = modifyFirst (fun h => h.compartmentId = c)
        (fun h => { h with kdfParamsMaster := kdf }) s.container.header.compartments)

theorem Call.Edits.compartments {v : Vault} {call : Call} {es : List In} {e : In}
    {q : FacadeResult (Edit Reply)} {d : Edit Reply} (he : call.Edits C A v es e q)
    (hq : q = .ok d) : HeaderEdit C call e v.state d.state := by
  cases he with
  | addCompartment label passphrase profile e =>
    unfold addCompartmentEdit at hq
    split at hq
    · cases hq
    · rename_i kdf u blob hp
      cases hq
      exact .pushed _ (prepareAddCompartment_kdf hp) rfl
  | createKey a e =>
    unfold createKeyEdit at hq
    split at hq
    · cases hq
    · exact .same (storeEdit_header hq)
  | discardKey t e es hc hk =>
    unfold discardEdit at hq
    split at hq
    · cases hq
    · cases hq
      exact .same rfl
  | changeKeyPassphrase old new e₀ e hc hk =>
    unfold changePassphraseEdit at hq
    split at hq
    · cases hq
    · split at hq
      · cases hq
      · split at hq
        · cases hq
        · unfold resealEdit at hq
          split at hq
          · cases hq
          · split at hq
            · cases hq
            · cases hq
              exact .same rfl
  | makeCredential a e hc hr hx =>
    unfold makeCredentialEdit at hq
    split at hq
    · cases hq
    · exact .same (storeEdit_header hq)
  | getAssertion e hr hx =>
    unfold commitEdit at hq
    split at hq
    · cases hq
      exact .same rfl
    · split at hq
      · cases hq
      · cases hq
        exact .same rfl
  | merge1 target json blobs e =>
    unfold merge1Edit at hq
    split at hq
    · cases hq
    · cases hq
      exact .same rfl
  | merge2 json blobs label passphrase profile e =>
    unfold merge2Edit at hq
    split at hq
    · cases hq
    · rename_i r kdf u blob hp
      cases hq
      exact .pushed _ (prepareMerge2_kdf hp) rfl
  | merge3 target json blobs passphrase kdfJson phrase e =>
    unfold merge3Edit at hq
    split at hq
    · cases hq
    · rename_i c r kdf u blob hp
      cases hq
      obtain ⟨hk, hc⟩ := prepareMerge3_kdf hp
      exact .replaced target json blobs passphrase kdfJson phrase c kdf rfl hc hk ⟨_, hp⟩ rfl

/-- What a call, run alone, does to the header's compartments. -/
theorem Effect.compartments {v v' : Vault} {call : Call} {es : List In} {r : FacadeResult Reply}
    (h : Effect C A v call es r v') : v'.state.container.header = v.state.container.header ∨
      ∃ e ∈ es, HeaderEdit C call e v.state v'.state := by
  cases h with
  | quiet hq => rw [hq.state]; exact .inl rfl
  | unlocked c b key p hh hb hp hs hd => rw [hs]; exact .inl rfl
  | locked hc hu hd => rw [hc]; exact .inl rfl
  | edited e q he hag =>
    have hstate : v'.state = (mutate C e v q).2.state := hag.state
    cases q with
    | error x => rw [hstate]; exact .inl rfl
    | ok d =>
      have hh : v'.state.container.header = d.state.container.header := by
        rw [hstate, mutate_state, (inMemory_frame C e d.state d.tail).2.1]
      refine .inr ⟨e, he.mem, ?_⟩
      cases Call.Edits.compartments he rfl with
      | same h => exact .same (hh.trans h)
      | pushed header hf h => exact .pushed header hf (by rw [hh]; exact h)
      | replaced target json blobs passphrase kdfJson phrase c kdf hcall hc hk hp h =>
        exact .replaced target json blobs passphrase kdfJson phrase c kdf hcall hc hk hp
          (by rw [hh]; exact h)

theorem MeetsFloor.step {v v' : Vault} {call : Call} {es : List In} {r : FacadeResult Reply}
    (hx : Prog.Exec A (call.run C) v es r v') (hb : BringsFloor C ⟨v, call, es, r, v'⟩)
    (h : MeetsFloor v.state) : MeetsFloor v'.state := by
  unfold MeetsFloor at h ⊢
  rcases Effect.compartments (call.effect hx) with hsame | ⟨e, hes, hedit⟩
  · rw [hsame]
    exact h
  · cases hedit with
    | same hsame => rw [hsame]; exact h
    | pushed header hf hpush =>
      rw [hpush]
      intro x hx
      rcases List.mem_append.1 hx with hx | hx
      · exact h x hx
      · rw [List.mem_singleton.1 hx]
        exact hf
    | replaced target json blobs passphrase kdfJson phrase c kdf hcall hc hk hp hrep =>
      rw [hrep]
      intro x hx
      rcases mem_modifyFirst hx with hx | ⟨y, -, -, rfl⟩
      · exact h x hx
      · exact hb target json blobs passphrase kdfJson phrase hcall e hes kdf hk hp

/-- Parameters that an option 3 brought are in the header, whether or not the
write went through. -/
theorem bringsFloor_of_meetsFloor {v v' : Vault} {call : Call} {es : List In}
    {r : FacadeResult Reply} (hx : Prog.Exec A (call.run C) v es r v') (h : MeetsFloor v'.state) :
    BringsFloor C ⟨v, call, es, r, v'⟩ := by
  intro target json blobs passphrase kdfJson phrase hcall e hes kdf hk hp
  simp only at hcall hes hp
  subst hcall
  obtain ⟨⟨c, r', kdf', u, blob⟩, hp⟩ := hp
  obtain ⟨hk', hc⟩ := prepareMerge3_kdf hp
  rw [hk] at hk'
  cases hk'
  obtain ⟨q, hx, -⟩ := exec_replying.1 hx
  obtain ⟨e', rfl, -, -, rfl⟩ := exec_op.1 hx
  obtain rfl := List.mem_singleton.1 hes
  have hd : merge3Edit C target json blobs passphrase kdfJson phrase e v.state = .ok
      ⟨VaultState.copyBlobs C (v.state.replaceMaster c kdf blob u) r'.idRemap blobs, .write,
        applyMergeResultMetadata C e.orders r'⟩ := by
    unfold merge3Edit
    rw [hp]
  rw [merge3Region_eq, Vault.enter_state, hd, mutate_state] at h
  obtain ⟨header, hm, rfl⟩ := List.mem_map.1 hc
  have hsome : (v.state.container.header.compartments.find?
      (fun h => h.compartmentId = header.compartmentId)).isSome := by
    rw [List.find?_isSome]
    exact ⟨header, hm, by simp⟩
  obtain ⟨first, hfirst⟩ := Option.isSome_iff_exists.1 hsome
  exact h _ (mem_of_find?_modifyFirst (fun h => { h with kdfParamsMaster := kdf }) hfirst)

theorem created_meetsFloor {v : Vault} (h : Created C v) : MeetsFloor v.state := by
  obtain ⟨e, disk, label, passphrase, profile, h⟩ := h
  obtain ⟨kdf, key, blob, bytes, hk, -, -, hs, -, -⟩ := create_ok h
  intro header hm
  rw [hs] at hm
  obtain rfl := List.mem_singleton.1 hm
  exact benchmark_meetsFloor _ _ _ _ _ hk

/-- **Which runs keep the floor.** In a run of any calls from a created vault,
failed ones among them, every compartment of every state meets the floor
exactly if every option 3 that passed its checks brought parameters that do. -/
theorem run_meetsFloor_iff (C : Crates) {A : Vault → In → Prop} {v₀ v : Vault} {l : List Turn}
    (h₀ : Created C v₀) (h : Run C A v₀ l v) :
    (MeetsFloor v₀.state ∧ ∀ t ∈ l, MeetsFloor t.after.state) ↔ ∀ t ∈ l, BringsFloor C t := by
  have key : (∀ t ∈ l, BringsFloor C t) → MeetsFloor v.state ∧ ∀ t ∈ l,
      MeetsFloor t.after.state := by
    induction h with
    | nil => exact fun _ => ⟨created_meetsFloor h₀, by simp⟩
    | cons hr hx ih =>
      intro hb
      obtain ⟨hv, hall⟩ := ih fun t ht => hb t (List.mem_cons_of_mem _ ht)
      have hv' := MeetsFloor.step hx (hb _ List.mem_cons_self) hv
      refine ⟨hv', fun t ht => ?_⟩
      rcases List.mem_cons.1 ht with rfl | ht
      · exact hv'
      · exact hall t ht
  constructor
  · rintro ⟨-, hall⟩
    clear key
    induction h with
    | nil => simp
    | cons hr hx ih =>
      intro t ht
      rcases List.mem_cons.1 ht with rfl | ht
      · exact bringsFloor_of_meetsFloor hx (hall _ List.mem_cons_self)
      · exact ih (fun t ht => hall t (List.mem_cons_of_mem _ ht)) t ht
  · intro hb
    exact ⟨created_meetsFloor h₀, (key hb).2⟩

end

/-! ## Two uses of option 3 -/

/-- A text that parses to `kdf`. -/
noncomputable def kdfJson (kdf : KdfParams) : String :=
  String.ofList (List.replicate (code kdf.toDoc).length (Char.ofNat 0))

theorem kdfParams_kdfJson (kdf : KdfParams) :
    Crates.symbolic.kdfParamsFromStr (kdfJson kdf) = .ok kdf.toDoc := by
  show decodeJson (KdfParamsOf String) (utf8 (kdfJson kdf)) = _
  rw [kdfJson, utf8_zeroes, decodeJson_code]

/-- Option 3 on the sample compartment, with nothing to import. -/
noncomputable def rekeyCall (kdf : KdfParams) : Call := .mergeReplaceLocalWithIncoming
  (hyphenated (Uuid.rep 10)) (jsonText (Manifest.sample [])) [] "pw" (kdfJson kdf)
  Merge.replaceConfirmationPhrase

theorem prepareMerge3_rekey (kdf : KdfParams) : ∃ r u blob, prepareMerge3 Crates.symbolic sampleIn
    sampleVault.state (hyphenated (Uuid.rep 10)) (jsonText (Manifest.sample [])) "pw" (kdfJson kdf)
    Merge.replaceConfirmationPhrase = .ok (Uuid.rep 10, r, kdf, u, blob) := by
  have hi : (Manifest.sample []).Valid :=
    ⟨rfl, by simp [Manifest.sample], by simp [Manifest.sample, Manifest.keyIds]⟩
  have hloc := sampleVault_state.localCompartments
  have htarget : Merge.extendTarget Crates.symbolic (Uuid.rep 10)
      (Merge.renamedKeys Crates.symbolic sampleIn.uuid (sampleLocal []) (Manifest.sample []))
      (sampleLocal []) = .ok (sampleLocal []) :=
    Merge.extendTarget_ok.2 ⟨[], _, [], rfl, rfl, by simp, sampleManifest_valid hi, rfl⟩
  have hmerge := (Merge.mergeReplace_ok hi).2 ⟨rfl, _, htarget, rfl⟩
  have hempty : (sampleManifest []).Valid := sampleManifest_valid hi
  obtain ⟨blob, hb⟩ := encryptWithKey_symbolic hempty (Uuid.rep 10)
    (pad32 (utf8 "pw" ++ kdf.salt.toList))
      (show sampleIn.nonce 1 = .ok (Vector.replicate 24 0) from rfl)
  have hmanifest :
    mergedManifest ⟨sampleLocal [], Merge.findDuplicates (sampleLocal []) (Manifest.sample []).keys,
      Merge.remapKeys sampleIn.uuid (sampleLocal []) (Manifest.sample []), false,
        some (Uuid.rep 10)⟩
      (Uuid.rep 10) "merge_replace_local_with_incoming keeps the target compartment id" =
        .ok (sampleManifest []) := by
    simp [mergedManifest, sampleLocal]
  unfold prepareMerge3
  rw [uuidParse_symbolic, fromJson_jsonText hi, kdfParams_kdfJson, hloc]
  simp only [KdfParamsOf.toDoc, saltFromHex_saltToHex, facade, bind, Except.bind, pure, Except.pure]
  rw [hmerge]
  simp only [hmanifest, derive_symbolic]
  exact ⟨_, _, blob, by rw [hb]⟩

/-- It goes through, whatever the parameters. -/
theorem sampleVault_rekeyed (kdf : KdfParams) : ∃ a v, Prog.Exec Vault.Admits
      ((rekeyCall kdf).run Crates.symbolic) sampleVault [sampleIn] (.ok a) v ∧
    v.state.container.header.compartments = [⟨Uuid.rep 10, "main", kdf⟩] := by
  obtain ⟨r, u, blob, hp⟩ := prepareMerge3_rekey kdf
  have hd : merge3Edit Crates.symbolic (hyphenated (Uuid.rep 10))
      (jsonText (Manifest.sample [])) [] "pw"
      (kdfJson kdf) Merge.replaceConfirmationPhrase sampleIn sampleVault.state = .ok
      ⟨VaultState.copyBlobs Crates.symbolic
        (sampleVault.state.replaceMaster (Uuid.rep 10) kdf blob u)
        r.idRemap [], .write, applyMergeResultMetadata Crates.symbolic sampleIn.orders r⟩ := by
    unfold merge3Edit
    rw [hp]
  obtain ⟨v, hx, hs, -⟩ := exec_region_edit (f := Reply.merge) (fun e w => merge3Region_eq e w
    (hyphenated (Uuid.rep 10)) (jsonText (Manifest.sample [])) [] "pw" (kdfJson kdf)
    Merge.replaceConfirmationPhrase) sampleVault_admits hd (goesThrough_write sampleIn_works _)
  refine ⟨_, v, hx, ?_⟩
  obtain ⟨kdf₀, hh⟩ := sampleVault_state.header
  rw [hs, (inMemory_frame Crates.symbolic sampleIn _ _).2.1]
  simp [VaultState.copyBlobs, VaultState.replaceMaster, VaultState.setMasterBlob,
    VaultState.setUnlocked, hh,
    modifyFirst]

/-- The weakest parameters that meet the floor. -/
def floorKdf : KdfParams :=
  ⟨floorMemoryKib, floorIterations, floorParallelism, Vector.replicate 16 0⟩

/-- An option 3 with parameters at the floor. -/
theorem run_meetsFloor_sample :
    ∃ a v, Prog.Exec Vault.Admits ((rekeyCall floorKdf).run Crates.symbolic)
      sampleVault [sampleIn] (.ok a) v ∧
    v.state.container.header.compartments = [⟨Uuid.rep 10, "main", floorKdf⟩] ∧
    MeetsFloor v.state := by
  obtain ⟨a, v, hx, hh⟩ := sampleVault_rekeyed floorKdf
  refine ⟨a, v, hx, hh,
    ((run_meetsFloor_iff Crates.symbolic sampleVault_created (.cons .nil hx)).2 ?_).2 _
    List.mem_cons_self⟩
  rintro t ht target json blobs passphrase json' phrase hcall e - kdf hk -
  obtain rfl := List.mem_singleton.1 ht
  cases hcall
  -- what the text parses to
  obtain ⟨r, u, blob, hp⟩ := prepareMerge3_rekey floorKdf
  rw [(prepareMerge3_kdf hp).1] at hk
  cases hk
  decide

/-- 1 MiB, one iteration. -/
def weakKdf : KdfParams := ⟨1024, 1, 1, Vector.replicate 16 0⟩

/-- **A master key below the floor.** Option 3 takes the parameters as they
come: after it the sample compartment's master key costs 1 MiB and one
iteration. -/
theorem merge3_below_floor :
    ∃ (v₀ : Vault) (l : List Turn) (v : Vault), Created Crates.symbolic v₀ ∧
    Run Crates.symbolic Vault.Admits v₀ l v ∧ (∀ t ∈ l, ∃ a, t.result = .ok a) ∧
    ¬ MeetsFloor v.state := by
  obtain ⟨a, v, hx, hh⟩ := sampleVault_rekeyed weakKdf
  refine ⟨sampleVault, [⟨sampleVault, rekeyCall weakKdf, [sampleIn], .ok a, v⟩], v,
    sampleVault_created,
    .cons .nil hx, by simp, fun h => ?_⟩
  have hweak := h _ (hh ▸ List.mem_cons_self)
  simp [weakKdf, meetsFloor, floorMemoryKib] at hweak

end VaultSigner.L5
