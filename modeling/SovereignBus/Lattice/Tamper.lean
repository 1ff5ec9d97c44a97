import SovereignBus.Lattice.Log

/-!
Tamper evidence of the lattice log: what the recomputed commitments of a
changed history show.

* `TamperShows`: the commitments of the changed log differ from those of the
  original one from the first changed place on, and so does the tip.
* `lattice_tamper_evidence`: the exact condition. A payload counts only with
  its contribution `payload[(k-1) mod 32] ^ payload[32 + (k-2) mod 32]`, and
  contributions commute: a replacement shows when the contributions differ, a
  deletion or an insertion when the contribution is not zero and no later
  payload past the run of its own copies shares it, an exchange never.
-/

namespace SovereignBus

open Chain

/-- The payloads of the whole records of a file. -/
def payloads (f : File) : List Payload := (recordCodec.records f).map Prod.fst

@[simp] lemma payloads_logBytes (tip : Poly) (ps : List Payload) :
    payloads (logBytes tip ps) = ps := by
  rw [payloads, records_logBytes, link_map_fst]

/-- The commitments of `g` show that it is not `f`: from the first place where
the payloads differ on, the commitments differ, and so do the tips. -/
def TamperShows (f g : File) : Prop :=
  (∀ j, j < f.length / 96 → j < g.length / 96 →
      (payloads f).take (j + 1) ≠ (payloads g).take (j + 1) → commitmentAt f j ≠ commitmentAt g j)
    ∧ sebLatticeTip none f ≠ sebLatticeTip none g

lemma tamperShows_iff_evident (ps qs : List Payload) :
    TamperShows (logBytes 0 ps) (logBytes 0 qs) ↔ Evident sebLatticeCommit 0 ps qs := by
  have hlen : ∀ rs : List Payload, (logBytes 0 rs).length / 96 = rs.length := fun rs => by
    rw [logBytes_length, Nat.mul_div_cancel_left _ (by omega)]
  simp only [TamperShows, Evident, payloads_logBytes, hlen, sebLatticeTip_logBytes, ne_eq,
    Option.some.injEq]
  refine and_congr_left fun _ => forall_congr' fun j => forall₂_congr fun hp hq => ?_
  rw [commitmentAt_logBytes 0 ps hp, commitmentAt_logBytes 0 qs hq]

/-- The exact condition under which the verifier's chain betrays one change of
a history: `g` is any file of whole records with the changed payloads that
`seb_lattice_verify` accepts. -/
theorem lattice_tamper_evidence (c : Tampering Payload) (g : File) (h96 : 96 ∣ g.length)
    (hverify : sebLatticeVerify g 0 (g.length / 96) = 1) (hpayloads : payloads g = c.modified) :
    TamperShows (latticeRun [] (faultless c.original)).2 g ↔ c.Detectable contribution := by
  have hg : g = logBytes 0 c.modified := by
    rw [← hpayloads]
    exact eq_logBytes_of_verify h96 hverify
  rw [latticeRun_nil, hg, tamperShows_iff_evident, sebLatticeCommit_eq_addStep]
  exact evident_iff_detectable contribution 0 c

/-- The payload of zeros. -/
def zeroPayload : Payload := 0

/-- The payload with a one in its first byte. -/
def unitPayload : Payload := fun i => if i = 0 then 1 else 0

lemma zeroPayload_ne_unitPayload : zeroPayload ≠ unitPayload := fun h =>
  absurd (congrFun h 0) (by decide)

lemma sebLatticeVerify_run (ps : List Payload) :
    sebLatticeVerify (latticeRun [] (faultless ps)).2 0
      ((latticeRun [] (faultless ps)).2.length / 96) = 1 := by
  rw [latticeRun_nil, logBytes_length, Nat.mul_div_cancel_left _ (by omega)]
  exact sebLatticeVerify_logBytes ps le_rfl

/-- A replacement that shows. -/
theorem lattice_tamper_evidence_replace :
    TamperShows (latticeRun [] (faultless [zeroPayload])).2
        (latticeRun [] (faultless [unitPayload])).2
      ↔ contribution zeroPayload ≠ contribution unitPayload :=
  lattice_tamper_evidence (.replace [] zeroPayload unitPayload [] zeroPayload_ne_unitPayload)
    (latticeRun [] (faultless [unitPayload])).2
    (by rw [latticeRun_nil, logBytes_length]; exact Dvd.intro _ rfl)
    (sebLatticeVerify_run _) (by rw [latticeRun_nil, payloads_logBytes]; rfl)

/-- Two different neighbours exchanged: the verifier accepts, and the final tip
is the old one. -/
theorem lattice_exchange_unseen :
    zeroPayload ≠ unitPayload
      ∧ sebLatticeVerify (latticeRun [] (faultless [unitPayload, zeroPayload])).2 0 2 = 1
      ∧ ¬ TamperShows (latticeRun [] (faultless [zeroPayload, unitPayload])).2
          (latticeRun [] (faultless [unitPayload, zeroPayload])).2 := by
  refine ⟨zeroPayload_ne_unitPayload, ?_, ?_⟩
  · rw [latticeRun_nil]
    exact sebLatticeVerify_logBytes _ le_rfl
  · rw [latticeRun_nil, latticeRun_nil, tamperShows_iff_evident, sebLatticeCommit_eq_addStep]
    exact not_evident_exchange contribution zeroPayload unitPayload []

end SovereignBus
