import VaultSigner.L4Vault.Regions
import VaultSigner.L4Vault.Sample

/-!
# The vault as a ledger

Calls of one process overlap, region by region, and the process may die and
open its file again. To the container each is nevertheless a single entry in a
ledger: there is one moment between its beginning and its end at which its edit
is made, on the state of that moment, and the calls' edits come one after
another in this order. `ledger` is that view. It knows no regions, of what
follows an edit only that it goes through or leaves the file alone, and of what
a call replies only whether it is Ok.

Results:
* `service_ledger`: the service refines the ledger.
* `edits_once`: what a call returns is what it has entered since it began: once
  and in the file, at most once and in memory only, or never.
-/
namespace VaultSigner.L4
open VaultSigner.Core VaultSigner.L1 VaultSigner.L3

section
variable (C : Crates) (A : Vault → In → Prop)

abbrev Entry := Object.Event Call In (FacadeResult Reply)

/-- A created vault whose calls happen each at one moment. -/
def ledger : System Entry (Object Call Vault (FacadeResult Reply)) :=
  Object.system A (Observes C) (Applies C A) Unapplied (Restarts C) (Created C)

/-- What an entry says of a step of the service. -/
abbrev Entered : Service.Label Call In Vault FacadeError Reply → Entry → Prop :=
  Service.Shows A (Observes C)

/-- The ledger that a service is. -/
abbrev Keeping :
    Service Call In Vault FacadeError Reply → Object Call Vault (FacadeResult Reply) → Prop :=
  Service.Seen A (Observes C) (Applies C A) Unapplied

end

section
variable {C : Crates} {A : Vault → In → Prop} {c : Service Call In Vault FacadeError Reply}
  {l : List (Service.Label Call In Vault FacadeError Reply)}

/-- **The service is a ledger.** -/
theorem service_ledger : (service C A).RefinesBy (ledger C A) (Entered C A) (Keeping C A) :=
  Service.refines Call.once

/-- Only an edit is applied. -/
theorem Commit.edits {call : Call} {e : In} {v : Vault} {s : VaultState} {t : Tail}
    (h : Commit C A v e call s t) : call.EditsContainer := by
  cases h with
  | alone h =>
    cases h with
    | rejected hk hu hv => cases hk <;> trivial
    | stored hk hu hv => cases hk <;> trivial
    | _ => trivial
  | _ => trivial

theorem Observes.disk {v v' : Vault} (h : Observes C v v') : v'.disk = v.disk := by
  cases h with
  | quiet h => exact h.disk
  | unlocked _ _ _ _ _ _ _ _ hd => exact hd
  | locked _ _ hd => exact hd

theorem Restarts.disk {v v' : Vault} (h : Restarts C v v') : v'.disk = v.disk := by
  obtain ⟨e, bytes, hd, ho⟩ := h
  obtain ⟨k, -, rfl⟩ := openVault_ok ho
  exact hd.symm

/-- No edit has gone through. -/
def Unwritten (j : List Entry) : Prop := ∀ n call e a, .took n call e (.ok a) ∉ j

/-- The file stays as long as no edit goes through. -/
theorem ledger_file {o o' : Object Call Vault (FacadeResult Reply)} {j : List Entry}
    (h : ((ledger C A).resumed o).Run j o') (hj : Unwritten j) :
    o'.shared.disk = o.shared.disk := by
  induction h with
  | start hs =>
    cases hs
    rfl
  | @step j b o₁ o₂ _ hs ih =>
    have hprev := ih fun n call e a hm => hj n call e a (List.mem_cons_of_mem _ hm)
    rw [← hprev]
    cases hs with
    | began call h => rfl
    | read h hr => exact hr.disk
    | took h ha ht =>
      cases ht with
      | done s t a hc hg hs hd => exact absurd List.mem_cons_self (hj _ _ _ a)
      | undone s t x hc hg hs hd => exact hd
    | ended h hr => rfl
    | restarted h => exact h.disk

/-- What call `n` has entered, after the entries `j` since it began, when it
returns: an edit that went through, an edit that is in memory only, or none. -/
inductive Settles (n : Nat) (call : Call) (j : List Entry) : FacadeResult Reply → Prop
  | made {e : In} {a : Reply} (he : call.EditsContainer)
      (h : Object.since n j = some (call, [(e, .ok a)])) :
      Settles n call j (.ok a)
  | kept {e : In} {x : FacadeError} (he : call.EditsContainer)
      (h : Object.since n j = some (call, [(e, .error x)])) : Settles n call j (.error x)
  | unmade {r : FacadeResult Reply} (hr : call.EditsContainer → Failed r)
      (h : Object.since n j = some (call, [])) : Settles n call j r

theorem settles {o : Object Call Vault (FacadeResult Reply)} {j₁ j₂ : List Entry} {n : Nat}
    {call : Call} {r : FacadeResult Reply} (h : (ledger C A).Run (j₁ ++ .ended n call r :: j₂) o) :
    Settles n call j₂ r := by
  rcases Object.Run.once h with ⟨e, v, v', hsince, -, happ⟩ | ⟨hsince, hr⟩
  · cases happ with
    | done s t a hc hg hs hd => exact .made hc.edits hsince
    | undone s t x hc hg hs hd => exact .kept hc.edits hsince
  · exact .unmade hr hsince

/-- **Every edit is entered once.** However calls overlap and the process comes
and goes, the calls are entries in a ledger, each between its beginning and its
end: one edit for a call that edits and returns Ok (the empty one, for an
assertion that finds its key no more), at most one, which the file does not
see, for a call that fails, and none for any other. The file is as the last
edit of the ledger that went through has left it. -/
theorem edits_once (C : Crates) {A : Vault → In → Prop}
    {l : List (Service.Label Call In Vault FacadeError Reply)}
    {c : Service Call In Vault FacadeError Reply} (h : (service C A).Run l c) :
    ∃ j o, List.Forall₂ (Entered C A) l j ∧ (ledger C A).Run j o ∧ o.shared = c.shared ∧
      (∀ j₁ j₂ n call r, j = j₁ ++ .ended n call r :: j₂ → Settles n call j₂ r) ∧
      ∀ j₁ j₂, j = j₁ ++ j₂ → Unwritten j₁ → ∃ o', (ledger C A).Run j₂ o' ∧
      o'.shared.disk = c.shared.disk := by
  obtain ⟨j, o, hl, hj, hseen⟩ := service_ledger.run h
  refine ⟨j, o, hl, hj, hseen.shared, ?_, ?_⟩
  · intro j₁ j₂ n call r hsplit
    exact settles (hsplit ▸ hj)
  · intro j₁ j₂ hsplit hun
    obtain ⟨o', h₂, h₁⟩ := System.Run.split (hsplit ▸ hj)
    exact ⟨o', h₂, by rw [← hseen.shared, ledger_file h₁ hun]⟩

end

/-! ## A sample -/

/-- A question asked and answered while the second compartment is added: the
edit is entered once, the question never. -/
theorem edits_once_sample :
    ∃ (j j₁ j₂ : List Entry) (o : Object Call Vault (FacadeResult Reply)) (a b : Reply)
    (e : In), (ledger Crates.symbolic Vault.Admits).Run (.ended 0 addCall (.ok a) :: j) o ∧
      Object.since 0 j = some (addCall, [(e, .ok a)]) ∧
      j = j₁ ++ .ended 1 (.query .listCompartments) (.ok b) :: j₂ ∧
      Object.since 1 j₂ = some (.query .listCompartments, []) := by
  obtain ⟨d, v, -, -, hx, -, -, hframe⟩ := exec_addCall (admits_sampleNext sampleVault_clock)
    sampleVault_state.headerIds
  have hv : v.clock = 0 := by
    rw [hframe]
    rfl
  have hquery : Prog.Exec Vault.Admits ((Call.query .listCompartments).run Crates.symbolic) v
      [sampleNext]
      ((answer Crates.symbolic sampleNext v .listCompartments).map .answer) v :=
    exec_replying.2 ⟨_, exec_region_still sampleNext_still hv _ rfl, rfl⟩
  obtain ⟨l₁, h₁, hended, -⟩ :=
      service_exec (c := { ((Service.setCall ⟨sampleVault, fun _ => none⟩ 0
      (some (addCall, addCall.run Crates.symbolic))).setCall 0
        (some (addCall, .done (.ok (.compartment d.reply))))) with shared := v })
    (n := 1) (B := fun _ => True) (D := fun _ => True) hquery rfl trivial fun _ _ => trivial
  have hstart : (service Crates.symbolic Vault.Admits).Run [] ⟨sampleVault, fun _ => none⟩ :=
    .start ⟨sampleVault_created, fun _ => rfl⟩
  have hadded :=
    (hstart.step (.began (n := 0) addCall rfl)).step (Service.Exec.last (n := 0) hx rfl)
  have hrun := (hadded.append h₁).step (.ended (n := 0) (r := .ok (.compartment d.reply)) rfl)
  obtain ⟨j, o, hl, hj, -, hsettles, -⟩ := edits_once Crates.symbolic hrun
  cases hl with
  | @cons _ b _ j hb hl =>
    cases hb
    obtain ⟨j₁, j₂, rfl⟩ := Service.Shows.ended_mem hl (List.mem_append_left _ hended)
    have hadd := hsettles [] _ 0 addCall (.ok (.compartment d.reply)) rfl
    have hasked := hsettles (.ended 0 addCall (.ok (.compartment d.reply)) :: j₁) j₂ 1 _ _ rfl
    cases hadd with
    | @made e _ _ hsince =>
      refine ⟨_, j₁, j₂, o, _, _, e, hj, hsince, rfl, ?_⟩
      cases hasked with
      | made he => exact absurd he id
      | unmade hr hsince' => exact hsince'
    | unmade hr =>
      obtain ⟨x, hx⟩ := hr trivial
      cases hx

end VaultSigner.L4
