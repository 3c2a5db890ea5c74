import Mathlib.Data.Fintype.Basic
import Mathlib.Tactic.FinCases
import Rgw.RequestAtomicity

/-! # An order of the requests

Requests that each act at one moment can be answered one after another instead: every run of
requests about buckets that are there has an order in which they give the same answers and
leave the same store. -/
namespace RequestOrders

open ByteStrings TextCodecs Interaction Moments RgwTypes RgwSal RgwSalSqlite StoreInvariants Http
  RestS3Wire RestS3Handlers ObjectReads BucketIncarnations RequestShapes RequestAtomicity

section Calls

variable {md5 : Str → Str} {ctx : ReqCtx} {range : Option ByteRange} {p : Program}
  {h : List (Event DriverCall Reply)} {c : DriverCall} {k : Reply c → Program}

/-- What a request calls next: nothing that writes, or that and then no more; never a creation. -/
structure Calls (md5 : Str → Str) (writes : Prop) (c : DriverCall) (k : Reply c → Program) : Prop where
  last : (∀ s, (exec md5 c s).2 = s) ∨ writes ∧ ∀ r, ∃ resp, k r = .done resp
  created : ∀ info, c ≠ .createBucket info

theorem not_done {resp : Response} (hg : Goes (.done resp) h (.call c k)) : False := by
  cases hg.of_done.2

/-- A request that has not got its bucket only loads it. -/
theorem onBucket_calls {writes : Prop} {rest : BucketInfo → Program → Prop}
    (shape : OnBucket ctx rest p) (hg : Goes p h (.call c k))
    (hrest : ∀ b p' h', rest b p' → Goes p' h' (.call c k) → Calls md5 writes c k) :
    Calls md5 writes c k := by
  cases shape with
  | answer resp => exact (not_done hg).elim
  | load denied granted =>
    rcases hg.next with ⟨-, he⟩ | ⟨r, h', -, hg⟩
    · cases he
      exact ⟨Or.inl fun _ => rfl, fun _ he => by cases he⟩
    cases r with
    | error e =>
      rw [denied] at hg
      exact (not_done hg).elim
    | ok b => exact hrest b _ h' (granted b) hg

theorem oneCall_calls {removes : Prop} {b : BucketInfo} (shape : OneCall ctx removes b p)
    (hg : Goes p h (.call c k)) : Calls md5 True c k := by
  cases shape with
  | answer resp => exact (not_done hg).elim
  | object key body ends gone =>
    rcases hg.next with ⟨-, he⟩ | ⟨r, h', -, hg⟩
    · cases he
      refine ⟨Or.inr ⟨trivial, ends⟩, ?_⟩
      rintro info rfl
      cases key
    · obtain ⟨resp, hr⟩ := ends r
      rw [hr] at hg
      exact (not_done hg).elim
  | removal allowed ends gone =>
    rcases hg.next with ⟨-, he⟩ | ⟨r, h', -, hg⟩
    · cases he
      exact ⟨Or.inr ⟨trivial, ends⟩, fun _ he => by cases he⟩
    · obtain ⟨resp, hr⟩ := ends r
      rw [hr] at hg
      exact (not_done hg).elim

theorem oneRead_calls {b : BucketInfo} (shape : OneRead ctx range b p) (hg : Goes p h (.call c k)) :
    Calls md5 False c k := by
  cases shape with
  | answer resp => exact (not_done hg).elim
  | read found lost unfit size unsized =>
    rcases hg.next with ⟨-, he⟩ | ⟨r, h', -, hg⟩
    · cases he
      exact ⟨Or.inl fun _ => rfl, fun _ he => by cases he⟩
    cases r with
    | ok read =>
      obtain ⟨resp, hr, -⟩ := found read
      rw [hr] at hg
      exact (not_done hg).elim
    | error e =>
      by_cases he : e = .invalidRange
      · subst he
        rw [unfit] at hg
        rcases hg.next with ⟨-, he⟩ | ⟨r, h', -, hg⟩
        · cases he
          exact ⟨Or.inl fun _ => rfl, fun _ he => by cases he⟩
        cases r with
        | ok info =>
          rw [size] at hg
          exact (not_done hg).elim
        | error e =>
          rw [unsized] at hg
          exact (not_done hg).elim
      · rw [lost e he] at hg
        exact (not_done hg).elim

/-- What a request calls that is not a download, and what one that is. -/
theorem handle_calls {P : Platform} {env : ReqEnv} {d : Delivered} (one : OneBucket d.request)
    (hg : Goes (handle P env d.identity d.request) h (.call c k)) :
    Calls md5 (¬IsDownload d.request) c k := by
  by_cases hd : IsDownload d.request
  · refine onBucket_calls (download_onBucket hd) hg fun b p' h' hrest hg' => ?_
    have hcalls : Calls md5 False c k := oneRead_calls hrest hg'
    exact ⟨hcalls.last.imp_right fun hw => hw.1.elim, hcalls.created⟩
  · refine onBucket_calls (handle_onBucket d.writes one hd) hg fun b p' h' hrest hg' => ?_
    have hcalls : Calls md5 True c k := oneCall_calls hrest hg'
    exact ⟨hcalls.last.imp_right fun hw => ⟨hd, hw.2⟩, hcalls.created⟩

end Calls

section Orders

variable {ι : Type} [DecidableEq ι] {P : Platform} {env : ι → ReqEnv} {d : ι → Delivered}

/-- The requests at their start. -/
def requests (P : Platform) (env : ι → ReqEnv) (d : ι → Delivered) (i : ι) : Program :=
  handle P (env i) (d i).identity (d i).request

variable {s : Tables} {t : List (ι × Event DriverCall Reply)}
  {y : Config DriverCall Reply Response Tables ι}

theorem nothing_created (one : ∀ i, OneBucket (d i).request)
    (run : Trace (exec P.md5) ⟨s, requests P env d⟩ t y) : created t = [] := by
  refine List.filterMap_eq_nil_iff.mpr fun e he => ?_
  obtain ⟨i, c, r⟩ := e
  obtain ⟨before, z, k, hz, hcall⟩ := trace_call run he
  have hg := trace_goes hz i
  rw [hcall] at hg
  have hcalls : Calls P.md5 _ c k := handle_calls (one i) hg
  cases c with
  | createBucket info => exact absurd rfl (hcalls.created info)
  | _ => rfl

/-- Only a request that then ends, and is no download, changes anything. -/
theorem only_ended (one : ∀ i, OneBucket (d i).request) {L : List ι}
    (run : Trace (exec P.md5) ⟨s, requests P env d⟩ t y)
    (listed : ∀ i resp, y.threads i = .done resp → ¬Misannounced (env i) (d i).request resp → i ∈ L) :
    Along (exec P.md5) (fun _ y e z => e.1 ∉ L → z.state = y.state) ⟨s, requests P env d⟩ t y := by
  refine Trace.along_steps run fun e before z z' made hz hs hL => ?_
  obtain ⟨later, rfl⟩ := made
  obtain ⟨w, hw, hrest⟩ := trace_split run
  obtain rfl := trace_unique (Trace.snoc hz hs) hw
  cases hs with
  | call s' p i c k hi =>
    have hg := trace_goes hz i
    simp only [hi] at hg
    have hcalls : Calls P.md5 _ c k := handle_calls (one i) hg
    rcases hcalls.last with hread | ⟨hd, hends⟩
    · exact hread s'
    · obtain ⟨resp, hr⟩ := hends (exec P.md5 c s').1
      have hended : y.threads i = .done resp := trace_ended hrest (by simp [hr])
      exact absurd (listed i resp hended fun hm => hd hm.1) hL

/-- Of every run of requests about buckets that are there, those that have answered, downloads
that announce too large a size aside, could have been answered one after another, and what
ended before another began comes before it. -/
theorem requests_in_order [Fintype ι] (P : Platform) (env : ι → ReqEnv) (d : ι → Delivered)
    (one : ∀ i, OneBucket (d i).request) (s : Tables) (wf : WellFormed P.md5 s)
    (t : List (ι × Event DriverCall Reply)) (y : Config DriverCall Reply Response Tables ι)
    (run : Trace (exec P.md5) ⟨s, requests P env d⟩ t y) :
    ∃ (order : List ι) (a : ι → Response), order.Nodup ∧
      (∀ i, i ∈ order ↔ y.threads i = .done (a i) ∧ ¬Misannounced (env i) (d i).request (a i)) ∧
      (∀ i resp, y.threads i = .done resp → a i = resp) ∧
      Serial (exec P.md5) (requests P env d) a order s y.state ∧
      order.Pairwise fun i j => ¬Before t j i := by
  classical
  let a : ι → Response := fun i => (y.threads i).result.getD noContent
  let L := (Finset.univ.filter fun i => y.threads i = .done (a i) ∧
    ¬Misannounced (env i) (d i).request (a i)).toList
  have ha : ∀ i resp, y.threads i = .done resp → a i = resp := by
    intro i resp hi
    change (y.threads i).result.getD noContent = resp
    rw [hi]
    rfl
  have hmem : ∀ i, i ∈ L ↔ y.threads i = .done (a i) ∧
      ¬Misannounced (env i) (d i).request (a i) := by simp [L]
  have hnone := nothing_created one run
  have once : DrawnOnce s t := by
    rw [DrawnOnce, hnone]
    exact ⟨.nil, fun _ h => by cases h⟩
  have hrest := only_ended (L := L) one run fun i resp hi hfits => by
    rw [hmem, ha i resp hi]
    exact ⟨hi, hfits⟩
  have heff : ∀ i ∈ L, TookEffect (exec P.md5) ⟨s, requests P env d⟩ i (a i) t y := by
    intro i hi
    obtain ⟨hended, hfits⟩ := (hmem i).mp hi
    exact fit_effect (one i) wf once run rfl (fun _ => hnone) hended hfits
  obtain ⟨order, hperm, hserial, horder⟩ := serial run (Finset.nodup_toList _) heff hrest
  exact ⟨order, a, hperm.nodup_iff.mpr (Finset.nodup_toList _),
    fun i => (hperm.mem_iff).trans (hmem i), ha, hserial, horder⟩

def readAndWriteRequests (i : Fin 2) : Delivered := if i.val = 0 then readLater else writeLonger

/-- The longer notes are written after the download loaded its bucket, and it sends bytes of
them: the upload comes first. -/
theorem requests_in_order_notes : ∃ t y, ∃ (order : List (Fin 2)) (a : Fin 2 → Response),
    Trace (exec sampleMd5) ⟨withNotes, requests (.ofTables [] [] [])
      (fun _ => OwnerIsolation.drawn (bytes "id-3")) readAndWriteRequests⟩ t y ∧
    (a 0).status = 206 ∧ (a 1).status = 200 ∧ order.Nodup ∧ (∀ i, i ∈ order) ∧
    Serial (exec sampleMd5) (requests (.ofTables [] [] [])
      (fun _ => OwnerIsolation.drawn (bytes "id-3")) readAndWriteRequests) a order withNotes
      y.state := by
  have hplay : ((Config.play (exec sampleMd5) [0, 1, 1, 0] ([], ⟨withNotes,
      requests (.ofTables [] [] []) (fun _ => OwnerIsolation.drawn (bytes "id-3"))
        readAndWriteRequests⟩)).bind fun r => (r.2.threads 0).result.bind fun part =>
          (r.2.threads 1).result.map fun answer => (part.status, answer.status)) =
      some (206, 200) := by
    decide +kernel
  obtain ⟨⟨t, y⟩, hr, hplay⟩ := Option.bind_eq_some_iff.mp hplay
  obtain ⟨part, hpart, hplay⟩ := Option.bind_eq_some_iff.mp hplay
  obtain ⟨answer, hanswer, hplay⟩ := Option.map_eq_some_iff.mp hplay
  obtain ⟨hstatus₀, hstatus₁⟩ := Prod.mk.inj hplay
  have run := play_trace .nil hr
  have one : ∀ i, OneBucket (readAndWriteRequests i).request := by
    intro i
    fin_cases i <;> exact trivial
  obtain ⟨order, a, hnodup, hmem, ha, hserial, -⟩ := requests_in_order (.ofTables [] [] [])
    (fun _ => OwnerIsolation.drawn (bytes "id-3")) readAndWriteRequests one withNotes
    withNotes_wellFormed t y run
  have h0 := result_eq_some.mp hpart
  have h1 := result_eq_some.mp hanswer
  rw [← ha 0 part h0] at hstatus₀
  rw [← ha 1 answer h1] at hstatus₁
  have hmisfit : ∀ i, ¬Misannounced (OwnerIsolation.drawn (bytes "id-3"))
      (readAndWriteRequests i).request (a i) := by
    rintro i ⟨-, r, size, span, -, -, hresp⟩
    have hrefused : (a i).status = 416 := by
      rw [hresp, errorResponse_status, (RangeReads.invalidRange_spec size).1]
      rfl
    fin_cases i
    · exact absurd (hstatus₀.symm.trans hrefused) (by decide)
    · exact absurd (hstatus₁.symm.trans hrefused) (by decide)
  refine ⟨t, y, order, a, run, hstatus₀, hstatus₁, hnodup, fun i => (hmem i).mpr ⟨?_, hmisfit i⟩,
    hserial⟩
  fin_cases i
  · exact h0.trans (congrArg _ (ha 0 part h0).symm)
  · exact h1.trans (congrArg _ (ha 1 answer h1).symm)

end Orders

end RequestOrders
