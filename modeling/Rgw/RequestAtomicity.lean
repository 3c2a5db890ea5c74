import Rgw.Moments
import Rgw.RangeReads
import Rgw.ReadSnapshots
import Rgw.RequestShapes

/-! # Requests as single steps

Between the calls of a request its bucket may be removed, or removed and created again. Still
the request answers and acts as if it had been alone at one moment: at its last call if the
bucket is there, and else right after it was removed. The one exception is a range that was
refused for one version of an object and is answered with the size of a later one. -/
namespace RequestAtomicity

open ByteStrings TextCodecs Interaction Moments RgwTypes RgwSal RgwSalSqlite StoreInvariants
  StoreRefinement Http RgwAuth RestS3Wire RestS3Handlers ObjectReads BucketIncarnations
  RequestShapes

section Ids

variable {ι α : Type} [DecidableEq ι] {md5 : Str → Str} {x y z : Config DriverCall Reply α Tables ι}
  {t after before : List (ι × Event DriverCall Reply)} {id : Str} {b : BucketInfo}

/-- The ids of the buckets that are created, or not for lack of the name. -/
def created (t : List (ι × Event DriverCall Reply)) : List Str :=
  t.filterMap fun e => match e.2.1 with
    | .createBucket info => some info.bucket.bucketId
    | _ => none

/-- No id is drawn twice, or is that of a bucket from before. -/
def DrawnOnce (s : Tables) (t : List (ι × Event DriverCall Reply)) : Prop :=
  (created t).Nodup ∧ ∀ id ∈ created t, id ∉ s.buckets

theorem trace_wellFormed (wf : WellFormed md5 x.state) (run : Trace (exec md5) x t y) :
    WellFormed md5 y.state := by
  induction run with
  | nil => exact wf
  | snoc _ hs ih =>
    rw [(step_state hs).2]
    exact exec_wellFormed ih _

/-- A row of an id that no call drew was there at the start. -/
theorem row_before (run : Trace (exec md5) x t y) (hid : id ∉ created t) {row : BucketRow}
    (hr : y.state.buckets[id]? = some row) : x.state.buckets[id]? = some row := by
  induction run with
  | nil => exact hr
  | @snoc t y e z _ hs ih =>
    rw [(step_state hs).2] at hr
    have hid' : id ∉ created t := by
      intro hm
      refine hid ?_
      rw [created, List.filterMap_cons]
      split
      · exact hm
      · exact List.mem_cons_of_mem _ hm
    rcases exec_buckets_new hr with hold | ⟨info, he, rfl⟩
    · exact ih hid' hold
    · refine absurd ?_ hid
      simp [created, he]

/-- A bucket that is stored keeps its id to itself. -/
theorem stored_later (once : DrawnOnce x.state (after ++ before)) (run : Trace (exec md5) x before z)
    (hb : Stored z.state b) : b.bucket.bucketId ∉ created after := by
  intro hm
  obtain ⟨row, hr, -⟩ := hb
  obtain ⟨hnodup, hfresh⟩ := once
  rw [created, List.filterMap_append] at hnodup hfresh
  have hnew := hfresh _ (List.mem_append_left _ hm)
  by_cases hold : b.bucket.bucketId ∈ created before
  · exact List.disjoint_of_nodup_append hnodup hm hold
  · exact hnew (mem_buckets.mpr ⟨row, row_before run hold hr⟩)

/-- Without creations a name is free once its bucket is gone. -/
theorem name_free (run : Trace (exec md5) x t y) (wf : WellFormed md5 x.state) (hb : Stored x.state b)
    (none : created t = []) (hy : b.bucket.bucketId ∉ y.state.buckets) :
    y.state.bucketNamed b.bucket.tenant b.bucket.name = .none := by
  obtain ⟨row, hr, hd⟩ := hb
  obtain ⟨-, ht, hname⟩ := bucketRow_key wf hr
  rw [hd] at ht hname
  by_contra hfree
  obtain ⟨⟨id', row'⟩, hn⟩ := Option.ne_none_iff_exists'.mp hfree
  obtain ⟨hr', ht', hname'⟩ := bucketNamed_some hn
  have hid : id' ∉ created t := by
    rw [none]
    exact List.not_mem_nil
  have hsame := wf.bucketNames _ _ _ _ (row_before run hid hr') hr (ht'.trans ht.symm)
    (hname'.trans hname.symm)
  exact hy (mem_buckets.mpr ⟨row', hsame ▸ hr'⟩)

theorem still_stored (run : Trace (exec md5) x t y) (hid : b.bucket.bucketId ∉ created t)
    (hb : Stored x.state b) (hy : b.bucket.bucketId ∈ y.state.buckets) : Stored y.state b := by
  obtain ⟨row, hr, hd⟩ := hb
  obtain ⟨row', hr'⟩ := mem_buckets.mp hy
  have hold := row_before run hid hr'
  rw [hr] at hold
  obtain rfl := Option.some.inj hold
  exact ⟨row, hr', hd⟩

/-- Whoever loads a bucket by its name finds one of that name. -/
theorem loadBucket_named {s : Tables} (wf : WellFormed md5 s) {tenant name : Str}
    (hl : loadBucket tenant name s = .ok b) : b.bucket.tenant = tenant ∧ b.bucket.name = name := by
  rw [loadBucket] at hl
  cases hn : s.bucketNamed tenant name with
  | none =>
    rw [hn] at hl
    cases hl
  | some r =>
    rw [hn] at hl
    cases hl
    obtain ⟨hr, ht, hname⟩ := bucketNamed_some hn
    obtain ⟨-, ht', hname'⟩ := bucketRow_key wf hr
    exact ⟨ht'.symm.trans ht, hname'.symm.trans hname⟩

/-- Where it is stored, it is what its name loads. -/
theorem stored_load {s : Tables} (wf : WellFormed md5 s) (hb : Stored s b) :
    loadBucket b.bucket.tenant b.bucket.name s = .ok b := by
  obtain ⟨row, hn, hd⟩ := stored_named wf hb
  rw [loadBucket, hn]
  exact congrArg _ hd

/-- Once its bucket is removed a name is free. -/
theorem removed_free {s : Tables} (wf : WellFormed md5 s) (hb : Stored s b) {c : DriverCall}
    (hgone : b.bucket.bucketId ∉ (exec md5 c s).2.buckets) :
    (exec md5 c s).2.bucketNamed b.bucket.tenant b.bucket.name = none := by
  obtain ⟨row, hr, hd⟩ := hb
  obtain ⟨-, ht, hname⟩ := bucketRow_key wf hr
  rw [hd] at ht hname
  by_contra hfree
  obtain ⟨⟨id', row'⟩, hn⟩ := Option.ne_none_iff_exists'.mp hfree
  obtain ⟨hr', ht', hname'⟩ := bucketNamed_some hn
  have hremoval : ∃ tenant name, c = .removeBucket tenant name := by
    by_contra hnot
    exact hgone (mem_buckets.mpr ⟨row, exec_buckets_grow (fun t n he => hnot ⟨t, n, he⟩) hr⟩)
  obtain ⟨tenant, name, rfl⟩ := hremoval
  have hold : s.buckets[id']? = some row' := by
    rcases exec_buckets_new hr' with hold | ⟨info, he, -⟩
    · exact hold
    · cases he
  have hid := wf.bucketNames _ _ _ _ hold hr (ht'.trans ht.symm) (hname'.trans hname.symm)
  subst hid
  exact hgone (mem_buckets.mpr ⟨row', hr'⟩)

/-- Between a moment when a bucket is stored and one when it is gone its name was free. -/
theorem free_between (wf : WellFormed md5 x.state) (run : Trace (exec md5) x t y)
    (hid : b.bucket.bucketId ∉ created t) (hb : Stored x.state b)
    (hgone : b.bucket.bucketId ∉ y.state.buckets) : ∃ later earlier z, t = later ++ earlier ∧
      Trace (exec md5) x earlier z ∧
      z.state.bucketNamed b.bucket.tenant b.bucket.name = none := by
  induction run with
  | nil =>
    obtain ⟨row, hr, -⟩ := hb
    exact absurd (mem_buckets.mpr ⟨row, hr⟩) hgone
  | @snoc t y e z hr hs ih =>
    have hid' : b.bucket.bucketId ∉ created t := by
      intro hm
      refine hid ?_
      rw [created, List.filterMap_cons]
      split
      · exact hm
      · exact List.mem_cons_of_mem _ hm
    by_cases hy : b.bucket.bucketId ∈ y.state.buckets
    · have hstate := (step_state hs).2
      refine ⟨[], e :: t, z, rfl, .snoc hr hs, ?_⟩
      rw [hstate] at hgone ⊢
      exact removed_free (trace_wellFormed wf hr) (still_stored hr hid' hb hy) hgone
    · obtain ⟨later, earlier, w, rfl, hw, hfree⟩ := ih hid' hy
      exact ⟨e :: later, earlier, w, rfl, hw, hfree⟩

end Ids

section Effects

variable {ι : Type} [DecidableEq ι] {md5 : Str → Str}
  {x y z₁ z₁' z₂ z₂' : Config DriverCall Reply Response Tables ι}
  {t after between before : List (ι × Event DriverCall Reply)} {i : ι} {b : BucketInfo} {name : Str}
  {e : Event DriverCall Reply} {resp : Response} {ctx : ReqCtx}

/-! A request `i` that loads its bucket `b` first, and calls `e` last. -/
variable (wf : WellFormed md5 x.state) (once : DrawnOnce x.state t)
  (split : t = after ++ (i, e) :: (between ++ (i, ⟨.loadBucket [] name, .ok b⟩) :: before))
  (start : Trace (exec md5) x before z₁)
  (call : Step (exec md5) z₁ (i, ⟨.loadBucket [] name, .ok b⟩) z₁')
  (middle : Trace (exec md5) z₁' between z₂)

include wf once split start call

/-- What the bucket's id is bound to from then on. -/
theorem loaded_since : WellFormed md5 z₁'.state ∧ Stored z₁'.state b ∧
    b.bucket.bucketId ∉ created between ∧ b.bucket.tenant = [] ∧ b.bucket.name = name := by
  have wf₁ := trace_wellFormed wf start
  obtain ⟨hreply, hstate⟩ := step_state call
  have hload : loadBucket [] name z₁.state = .ok b := hreply.symm
  have hsame : z₁'.state = z₁.state := hstate
  have hstored := loadBucket_stored wf₁ hload
  obtain ⟨htenant, hname⟩ := loadBucket_named wf₁ hload
  refine ⟨hsame ▸ wf₁, hsame ▸ hstored, ?_, htenant, hname⟩
  have hsplit : t = (after ++ (i, e) :: (between ++ [(i, ⟨.loadBucket [] name, .ok b⟩)])) ++ before := by
    simp [split]
  rw [hsplit] at once
  intro hm
  refine stored_later once start hstored ?_
  simp only [created, List.filterMap_append, List.filterMap_cons, List.mem_append] at hm ⊢
  refine Or.inr ?_
  split
  · exact List.mem_append_left _ hm
  · exact List.mem_cons_of_mem _ (List.mem_append_left _ hm)

include middle

/-- While the bucket is there the request would load it again. -/
theorem loads_again (hb : b.bucket.bucketId ∈ z₂.state.buckets) :
    exec md5 (.loadBucket [] name) z₂.state = (.ok b, z₂.state) := by
  obtain ⟨wf₁, hstored, hid, htenant, hname⟩ := loaded_since wf once split start call
  have hload := stored_load (trace_wellFormed wf₁ middle) (still_stored middle hid hstored hb)
  rw [htenant, hname] at hload
  exact congrArg (·, z₂.state) hload

/-- Once it is gone the request acts as it would have right after the removal. -/
theorem gone_effect (run : Trace (exec md5) x t y) (hb : b.bucket.bucketId ∉ z₂.state.buckets)
    {k : Reply (.loadBucket [] name) → Program} (thread : x.threads i = .call (.loadBucket [] name) k)
    (hk : k (.error .noSuchBucket) = .done resp)
    (silent : ∀ f ∈ seen i t, (∀ s, (exec md5 f.1 s).2 = s) ∨ ∃ err, f.2 = .error err) :
    TookEffect (exec md5) x i resp t y := by
  obtain ⟨wf₁, hstored, hid, htenant, hname⟩ := loaded_since wf once split start call
  obtain ⟨later, earlier, w, rfl, hw, hfree⟩ := free_between wf₁ middle hid hstored hb
  rw [htenant, hname] at hfree
  have hload : exec md5 (.loadBucket [] name) w.state = (.error .noSuchBucket, w.state) := by
    change (loadBucket [] name w.state, w.state) = _
    rw [loadBucket, hfree]
  have hsplit : t = (after ++ (i, e) :: later) ++
      (earlier ++ (i, ⟨.loadBucket [] name, .ok b⟩) :: before) := by simp [split]
  refine ⟨_, .between hsplit (trace_append (.snoc start call) hw) ?_ ?_ ?_ ?_⟩
  · rw [seen_append, seen_cons_self]
    simp
  · rw [seen_append, seen_cons_self]
    simp
  · rw [thread, run_call, hload, hk, run_done]
  · refine Trace.along_steps run fun f before' v v' made hv hstep he _ => ?_
    obtain ⟨j, f⟩ := f
    obtain rfl : j = i := he
    obtain ⟨hreply, hstate⟩ := step_state hstep
    rcases silent f (mem_seen.mpr (made.subset List.mem_cons_self)) with hread | ⟨err, herr⟩
    · rw [hstate, hread]
    · rw [hstate]
      exact exec_error (hreply.symm.trans herr)

end Effects

section Requests

variable {ι : Type} [DecidableEq ι] {md5 : Str → Str}
  {x y : Config DriverCall Reply Response Tables ι} {t : List (ι × Event DriverCall Reply)} {i : ι}
  {resp : Response} {ctx : ReqCtx}

/-- A request that made one call took effect there. -/
theorem single_effect {e : Event DriverCall Reply} (run : Trace (exec md5) x t y)
    (ended : y.threads i = .done resp) (hs : seen i t = [e]) : TookEffect (exec md5) x i resp t y := by
  obtain ⟨after, before, rfl, hafter, hbefore⟩ := seen_split hs
  obtain ⟨w, hw, hrest⟩ := trace_split run
  cases hw with
  | snoc hstart hcall =>
    have hended := trace_goes hrest i
    rw [hafter, ended] at hended
    refine tookEffect_last run hafter hstart hcall (run_again hstart hcall hended.of_nil ?_) ?_
    · rw [hbefore]
      exact fun _ hf => by cases hf
    · rw [hbefore]
      exact fun _ hf => by cases hf

section Pairs

variable {name : Str} {b : BucketInfo} {c : DriverCall} {r : Reply c}
    {k : Reply (.loadBucket [] name) → Program}

theorem read_again {s : Tables} (h : exec md5 (.loadBucket [] name) s = (.ok b, s))
    {f : Event DriverCall Reply} (hf : f ∈ [(⟨.loadBucket [] name, .ok b⟩ : Event DriverCall Reply)]) :
    exec md5 f.1 s = (f.2, s) := by
  cases List.mem_singleton.mp hf
  exact h

/-- The second of two calls counts if the bucket is there, and fails for lack of it if not. -/
theorem pair_effect (wf : WellFormed md5 x.state) (once : DrawnOnce x.state t)
    (run : Trace (exec md5) x t y) (ended : y.threads i = .done resp)
    (hs : seen i t = [⟨c, r⟩, ⟨.loadBucket [] name, .ok b⟩])
    (thread : x.threads i = .call (.loadBucket [] name) k)
    (absent : ∀ (z z' : Config DriverCall Reply Response Tables ι) u, WellFormed md5 z.state →
    Stored z.state b → Trace (exec md5) z u z' →
      u <:+: t → b.bucket.bucketId ∉ z'.state.buckets → (exec md5 c z'.state).1 = .error .noSuchBucket)
    (gone : r = .error .noSuchBucket → k (.error .noSuchBucket) = .done resp) :
    TookEffect (exec md5) x i resp t y := by
  obtain ⟨t', ht, hfl⟩ : ∃ t', t = t' ∧
      FirstLast (exec md5) x i ⟨.loadBucket [] name, .ok b⟩ ⟨c, r⟩ [] y t' :=
    ⟨t, rfl, first_last run hs⟩
  cases hfl with
  | @mk after between before z₁ z₁' z₂ z₂' done calls fresh start call₁ middle call₂ rest =>
    obtain ⟨hreply, hstate⟩ := step_state call₂
    by_cases hb : b.bucket.bucketId ∈ z₂.state.buckets
    · have hload := loads_again wf once ht start call₁ middle hb
      have hended := trace_goes rest i
      rw [done, ended] at hended
      have hprior : seen i (between ++ (i, ⟨.loadBucket [] name, .ok b⟩) :: before) =
          [⟨.loadBucket [] name, .ok b⟩] := by
        rw [seen_append, calls, seen_cons_self, fresh]
        rfl
      have hrun := trace_append (.snoc start call₁) middle
      subst ht
      refine tookEffect_last run done hrun call₂ (run_again hrun call₂ hended.of_nil ?_) ?_
      · rw [hprior]
        exact fun f hf => read_again hload hf
      · rw [hprior]
        intro f hf s
        cases List.mem_singleton.mp hf
        rfl
    · obtain ⟨wf₁, hstored, -⟩ := loaded_since wf once ht start call₁
      have hinfix : between <:+: t := by
        rw [ht]
        exact ⟨after ++ [(i, ⟨c, r⟩)], (i, ⟨.loadBucket [] name, .ok b⟩) :: before, by simp⟩
      have hr : r = .error .noSuchBucket := hreply.trans (absent _ _ _ wf₁ hstored middle hinfix hb)
      refine gone_effect wf once ht start call₁ middle run hb thread (gone hr) fun f hf => ?_
      rw [hs] at hf
      rcases List.mem_cons.mp hf with rfl | hf
      · exact Or.inr ⟨_, hr⟩
      · cases List.mem_singleton.mp hf
        exact Or.inl fun s => rfl

end Pairs

/-- A request about one bucket acts at its last call if the bucket is still there, and else
right after the removal. -/
theorem oneCall_effect {removes : Prop} (wf : WellFormed md5 x.state) (once : DrawnOnce x.state t)
    (run : Trace (exec md5) x t y) (shape : OnBucket ctx (OneCall ctx removes) (x.threads i))
    (quiet : removes → created t = []) (ended : y.threads i = .done resp) :
    TookEffect (exec md5) x i resp t y := by
  have hg := trace_goes run i
  rw [ended] at hg
  generalize hp : x.threads i = p at shape hg
  cases shape with
  | answer resp' =>
    obtain ⟨-, he⟩ := hg.of_done
    cases he
    exact ⟨[], .idle hp⟩
  | @load name k denied granted =>
    obtain ⟨r, h, hs, hrest⟩ := hg.of_call
    cases r with
    | error e =>
      rw [denied e] at hrest
      obtain ⟨rfl, -⟩ := hrest.of_done
      exact single_effect run ended hs
    | ok b =>
      have hgranted := granted b
      generalize k (.ok b) = p' at hgranted hrest
      cases hgranted with
      | answer resp' =>
        obtain ⟨rfl, -⟩ := hrest.of_done
        exact single_effect run ended hs
      | @object c k' key body ends gone =>
        obtain ⟨r, h', rfl, hlast⟩ := hrest.of_call
        obtain ⟨resp', hr⟩ := ends r
        rw [hr] at hlast
        obtain ⟨rfl, he⟩ := hlast.of_done
        cases he
        refine pair_effect wf once run ended hs hp (fun z z' u _ _ _ _ hb => ?_) fun he => ?_
        · rw [exec_object_absent key hb body]
        · rw [denied, ← gone, ← he, hr]
      | @removal k' allowed ends gone =>
        obtain ⟨r, h', rfl, hlast⟩ := hrest.of_call
        obtain ⟨resp', hr⟩ := ends r
        rw [hr] at hlast
        obtain ⟨rfl, he⟩ := hlast.of_done
        cases he
        refine pair_effect wf once run ended hs hp
          (fun z z' u wfz hstored hu hinfix hb => ?_) fun he => ?_
        · have hnone : created u = [] := by
            obtain ⟨l, r, rfl⟩ := hinfix
            have hquiet := quiet allowed
            rw [created, List.filterMap_append, List.filterMap_append] at hquiet
            exact (List.append_eq_nil_iff.mp (List.append_eq_nil_iff.mp hquiet).1).2
          rw [exec_removeBucket, name_free hu wfz hstored hnone hb]
        · rw [denied, ← gone, ← he, hr]

end Requests

section Downloads

variable {md5 : Str → Str} {s : Tables} {bucket : BucketKey} {key : Str} {range : Option ByteRange}

/-- A read and a question for the metadata fail alike, or find the same object. -/
theorem read_cases (wf : WellFormed md5 s) (bucket : BucketKey) (key : Str) (range : Option ByteRange) :
    (∃ e, e ≠ .invalidRange ∧ RgwSalSqlite.headObject bucket (.new key) s = .error e ∧
      RgwSalSqlite.getObject bucket (.new key) range s = .error e) ∨
    ∃ o : StoredObject, RgwSalSqlite.headObject bucket (.new key) s = .ok (o.info md5 key) ∧
      RgwSalSqlite.getObject bucket (.new key) range s = heldRead md5 key o range := by
  have hname : (ObjectKey.new key).name = key := rfl
  cases hload : loadObject bucket.bucketId key s with
  | error e =>
    refine Or.inl ⟨e, ?_, hload, ?_⟩
    · rintro rfl
      rw [loadObject, checkBucket] at hload
      split at hload
      · rw [ok_bind] at hload
        split at hload
        · rw [ObjectRow.intoInfo, toU64] at hload
          split at hload <;> cases hload
        · cases hload
      · cases hload
    · rw [RgwSalSqlite.getObject, hname, hload]
      rfl
  | ok info =>
    right
    by_cases hb : bucket.bucketId ∈ s.buckets
    · cases hrow : s.objects[(bucket.bucketId, key)]? with
      | none => simp [loadObject, checkBucket, hb, hrow] at hload
      | some row =>
        obtain ⟨o, rfl, held⟩ := wellFormed_held wf hrow
        exact ⟨o, held_loadObject held, held_getObject held range⟩
    · simp [loadObject, checkBucket, hb] at hload

/-- A range is refused for the size of the object alone. -/
theorem heldRead_invalidRange {o : StoredObject} :
    heldRead md5 key o range = .error .invalidRange ↔
      ∃ r, range = some r ∧ RgwSalSqlite.resolveRange r (o.info md5 key).size =
      .error .invalidRange := by
  have hsize : (o.info md5 key).size = o.data.length := rfl
  cases range with
  | none => simp [heldRead]
  | some r =>
    rw [heldRead, hsize]
    cases hr : RgwSalSqlite.resolveRange r o.data.length with
    | error e =>
      obtain rfl := ReadSnapshots.resolveRange_error hr
      simp [Except.map, hr]
    | ok span => simp [Except.map, hr]

variable {ι : Type} [DecidableEq ι] {x y : Config DriverCall Reply Response Tables ι}
  {t : List (ι × Event DriverCall Reply)} {i : ι} {resp : Response} {ctx : ReqCtx} {name : Str}
  {b : BucketInfo} {k₀ : Reply (.loadBucket [] name) → Program}
  {k : Reply (.getObject b.bucket (.new key) range) → Program}
  {k' : Reply (.headObject b.bucket (.new key)) → Program} {r : Reply (.headObject b.bucket (.new key))}

/-- A refusal that announces a size in which the range fits. -/
def Misfit (ctx : ReqCtx) (range : Option ByteRange) (resp : Response) : Prop :=
  ∃ r size span, range = some r ∧ RgwSalSqlite.resolveRange r size = .ok span ∧
    resp = errorResponse ctx (invalidRange size)

/-- A refused range is answered with the size at the last call: it acts there, unless the range
would have fit. -/
theorem refused_effect (wf : WellFormed md5 x.state) (once : DrawnOnce x.state t)
    (run : Trace (exec md5) x t y)
    (hs : seen i t = [⟨.headObject b.bucket (.new key), r⟩,
      ⟨.getObject b.bucket (.new key) range, .error .invalidRange⟩, ⟨.loadBucket [] name, .ok b⟩])
    (thread : x.threads i = .call (.loadBucket [] name) k₀)
    (denied : ∀ e, k₀ (.error e) = failed ctx e) (granted : k₀ (.ok b) = .call _ k)
    (lost : ∀ e, e ≠ .invalidRange → k (.error e) = failed ctx e)
    (unfit : k (.error .invalidRange) = .call _ k')
    (size : ∀ info, k' (.ok info) = .done (errorResponse ctx (invalidRange info.size)))
    (unsized : ∀ e, k' (.error e) = failed ctx e) (answer : k' r = .done resp) :
    TookEffect (exec md5) x i resp t y ∨ Misfit ctx range resp := by
  obtain ⟨t', ht, hfl⟩ : ∃ t', t = t' ∧ FirstLast (exec md5) x i ⟨.loadBucket [] name, .ok b⟩
      ⟨.headObject b.bucket (.new key), r⟩
      [⟨.getObject b.bucket (.new key) range, .error .invalidRange⟩] y t' :=
    ⟨t, rfl, first_last run hs⟩
  cases hfl with
  | @mk after between before z₁ z₁' z₂ z₂' done calls fresh start call₁ middle call₂ rest =>
    obtain ⟨hreply, hstate⟩ := step_state call₂
    by_cases hb : b.bucket.bucketId ∈ z₂.state.buckets
    · have hload := loads_again wf once ht start call₁ middle hb
      have hrun := trace_append (.snoc start call₁) middle
      have hsame : z₂'.state = z₂.state := hstate
      have hprior : seen i (between ++ (i, ⟨.loadBucket [] name, .ok b⟩) :: before) =
          [⟨.getObject b.bucket (.new key) range, .error .invalidRange⟩,
            ⟨.loadBucket [] name, .ok b⟩] := by
        rw [seen_append, calls, seen_cons_self, fresh]
        rfl
      have hlast : (x.threads i).run (exec md5) z₂.state = some (resp, z₂'.state) →
          TookEffect (exec md5) x i resp t y := by
        intro halone
        subst ht
        refine tookEffect_last run done hrun call₂ halone fun f hf s => ?_
        rw [hprior] at hf
        rcases List.mem_cons.mp hf with rfl | hf
        · rfl
        · cases List.mem_singleton.mp hf
          rfl
      have hhead : r = RgwSalSqlite.headObject b.bucket (.new key) z₂.state := hreply
      have halone : (x.threads i).run (exec md5) z₂.state =
          (k (RgwSalSqlite.getObject b.bucket (.new key) range z₂.state)).run (exec md5) z₂.state := by
        rw [thread, run_call, hload, granted]
        rfl
      rcases read_cases (trace_wellFormed wf hrun) b.bucket key range with
        ⟨e, hne, hheadError, hgetError⟩ | ⟨o, hheadInfo, hget⟩
      · refine Or.inl (hlast ?_)
        rw [halone, hgetError, lost e hne, ← unsized, ← hheadError, ← hhead, answer, run_done, hsame]
      · have hresp : resp = errorResponse ctx (invalidRange (o.info md5 key).size) := by
          rw [hhead, hheadInfo, size] at answer
          exact (Prog.done.inj answer).symm
        by_cases hfits : heldRead md5 key o range = .error .invalidRange
        · refine Or.inl (hlast ?_)
          have hrest : (Prog.call (DriverCall.headObject b.bucket (.new key)) k').run
            (exec md5) z₂.state =
              (k' (RgwSalSqlite.headObject b.bucket (.new key) z₂.state)).run (exec md5) z₂.state := rfl
          rw [halone, hget, hfits, unfit, hrest, ← hhead, answer, run_done, hsame]
        · -- the range was refused for another version, so it is one, and it fits this one
          obtain ⟨earlier, z, -, hz, hrefused⟩ :=
            trace_reply run (mem_seen.mp (hs ▸ List.mem_cons_of_mem _
            List.mem_cons_self : (⟨.getObject b.bucket (.new key) range, .error .invalidRange⟩ :
              Event DriverCall Reply) ∈ seen i t))
          have hread : RgwSalSqlite.getObject b.bucket (.new key) range z.state = .error .invalidRange :=
            hrefused.symm
          rcases read_cases (trace_wellFormed wf hz) b.bucket key range with
            ⟨e, hne, -, hgetError⟩ | ⟨o', -, hget'⟩
          · rw [hgetError] at hread
            exact absurd (Except.error.inj hread) hne
          rw [hget', heldRead_invalidRange] at hread
          obtain ⟨range', rfl, -⟩ := hread
          cases hspan : RgwSalSqlite.resolveRange range' (o.info md5 key).size with
          | error e =>
            obtain rfl := ReadSnapshots.resolveRange_error hspan
            exact absurd (heldRead_invalidRange.mpr ⟨range', rfl, hspan⟩) hfits
          | ok span => exact Or.inr ⟨range', _, span, rfl, hspan, hresp⟩
    · have hr : r = .error .noSuchBucket := by
        rw [exec_object_absent rfl hb fun _ he => by cases he] at hreply
        exact hreply
      left
      refine gone_effect wf once ht start call₁ middle run hb thread ?_ fun f hf => ?_
      · rw [denied, ← unsized, ← hr, answer]
      · rw [hs] at hf
        simp only [List.mem_cons, List.not_mem_nil, or_false] at hf
        rcases hf with rfl | rfl | rfl <;> exact Or.inl fun s => rfl

/-- A download acts at one moment, or was refused for another version than it announces. -/
theorem oneRead_effect (wf : WellFormed md5 x.state) (once : DrawnOnce x.state t)
    (run : Trace (exec md5) x t y) (shape : OnBucket ctx (OneRead ctx range) (x.threads i))
    (ended : y.threads i = .done resp) :
    TookEffect (exec md5) x i resp t y ∨ Misfit ctx range resp := by
  have hg := trace_goes run i
  rw [ended] at hg
  generalize hp : x.threads i = p at shape hg
  cases shape with
  | answer resp' =>
    obtain ⟨-, he⟩ := hg.of_done
    cases he
    exact Or.inl ⟨[], .idle hp⟩
  | @load name k denied granted =>
    obtain ⟨r, h, hs, hrest⟩ := hg.of_call
    cases r with
    | error e =>
      rw [denied e] at hrest
      obtain ⟨rfl, -⟩ := hrest.of_done
      exact Or.inl (single_effect run ended hs)
    | ok b =>
      have hgranted := granted b
      generalize hk : k (.ok b) = p' at hgranted hrest
      cases hgranted with
      | answer resp' =>
        obtain ⟨rfl, -⟩ := hrest.of_done
        exact Or.inl (single_effect run ended hs)
      | @read key k₁ k₂ found lost unfit size unsized =>
        obtain ⟨r, h', rfl, hlast⟩ := hrest.of_call
        have habsent : ∀ (z z' : Config DriverCall Reply Response Tables ι) u,
            WellFormed md5 z.state → Stored z.state b → Trace (exec md5) z u z' → u <:+: t →
            b.bucket.bucketId ∉ z'.state.buckets →
            (exec md5 (.getObject b.bucket (.new key) range) z'.state).1 = .error .noSuchBucket := by
          intro z z' u _ _ _ _ hb
          rw [exec_object_absent rfl hb fun _ he => by cases he]
        cases r with
        | ok read =>
          obtain ⟨resp', hfound, -⟩ := found read
          rw [hfound] at hlast
          obtain ⟨rfl, -⟩ := hlast.of_done
          exact Or.inl (pair_effect wf once run ended hs hp habsent fun he => by cases he)
        | error e =>
          by_cases he : e = .invalidRange
          · subst he
            rw [unfit] at hlast
            obtain ⟨r, h'', rfl, hsize⟩ := hlast.of_call
            have hanswer : h'' = [] ∧ k₂ r = .done resp := by
              cases r with
              | ok info =>
                rw [size] at hsize ⊢
                obtain ⟨rfl, he⟩ := hsize.of_done
                exact ⟨rfl, he.symm⟩
              | error e =>
                rw [unsized] at hsize ⊢
                obtain ⟨rfl, he⟩ := hsize.of_done
                exact ⟨rfl, he.symm⟩
            obtain ⟨rfl, hanswer⟩ := hanswer
            exact refused_effect wf once run hs hp denied hk lost unfit size unsized hanswer
          · rw [lost e he] at hlast
            obtain ⟨rfl, hresp⟩ := hlast.of_done
            refine Or.inl (pair_effect wf once run ended hs hp habsent fun hgone => ?_)
            rw [denied, ← Except.error.inj hgone, hresp]
            rfl

theorem errorResponse_contentRange (ctx : ReqCtx) (e : OpError) :
    (errorResponse ctx e).headers.getAll contentRange.val = e.headers.getAll contentRange.val := by
  have hbase : ∀ h : HeaderMap, (∀ f ∈ h.entries, f.1.val ≠ contentRange.val) →
      (h.extend e.headers).getAll contentRange.val = e.headers.getAll contentRange.val := by
    intro h hh
    rw [HeaderMap.getAll, HeaderMap.extend, List.filter_append, List.map_append]
    rw [List.filter_eq_nil_iff.mpr, List.map_nil, List.nil_append]
    · rfl
    · intro f hf
      have hne := hh f (List.mem_filter.mp hf).1
      simp [hne]
  rw [errorResponse]
  cases ctx.head with
  | true => exact hbase _ fun f hf => by cases hf
  | false =>
    refine hbase _ fun f hf => ?_
    obtain rfl := List.mem_singleton.mp hf
    decide

/-- Alone a download announces a size only in which its range does not fit. -/
theorem alone_fits {s s' : Tables} {p : Program} (wf : WellFormed md5 s)
    (shape : OnBucket ctx (OneRead ctx range) p) (hr : p.run (exec md5) s = some (resp, s')) :
    ¬Misfit ctx range resp := by
  rintro ⟨r, n, span, rfl, hfit, hresp⟩
  have hstatus : ∀ resp' : Response, resp'.status ≠ 416 →
    resp' ≠ errorResponse ctx (invalidRange n) := by
    rintro resp' hne rfl
    rw [errorResponse_status, (RangeReads.invalidRange_spec n).1] at hne
    exact hne rfl
  have hplain : ∀ e, errorResponse ctx (.ofError e) ≠ errorResponse ctx (invalidRange n) := by
    intro e he
    have hrange := congrArg (fun resp : Response => resp.headers.getAll contentRange.val) he
    rw [errorResponse_contentRange, errorResponse_contentRange,
      (RangeReads.invalidRange_spec n).2] at hrange
    cases hrange
  cases shape with
  | answer resp' fits =>
    cases hr
    exact hstatus _ fits hresp
  | @load name k denied granted =>
    rw [run_call] at hr
    change (k (loadBucket [] name s)).run (exec md5) s = _ at hr
    cases hload : loadBucket [] name s with
    | error e =>
      rw [hload, denied] at hr
      cases hr
      exact hplain e hresp
    | ok b =>
      rw [hload] at hr
      have hgranted := granted b
      generalize k (.ok b) = p' at hgranted hr
      cases hgranted with
      | answer resp' fits =>
        cases hr
        exact hstatus _ fits hresp
      | @read key k₁ k₂ found lost unfit size unsized =>
        rw [run_call] at hr
        change (k₁ (RgwSalSqlite.getObject b.bucket (.new key) (some r) s)).run (exec md5) s = _ at hr
        rcases read_cases wf b.bucket key (some r) with ⟨e, hne, -, hget⟩ | ⟨o, hhead, hget⟩
        · rw [hget, lost e hne] at hr
          cases hr
          exact hplain e hresp
        · rw [hget] at hr
          cases hread : heldRead md5 key o (some r) with
          | ok read =>
            obtain ⟨resp', hfound, fits⟩ := found read
            rw [hread, hfound] at hr
            cases hr
            exact hstatus _ fits hresp
          | error e =>
            have he : e = .invalidRange := by
              cases hspan : RgwSalSqlite.resolveRange r o.data.length with
              | error e' =>
                rw [heldRead, hspan] at hread
                cases hread
                exact ReadSnapshots.resolveRange_error hspan
              | ok span =>
                rw [heldRead, hspan] at hread
                cases hread
            subst he
            rw [hread, unfit, run_call] at hr
            change (k₂ (RgwSalSqlite.headObject b.bucket (.new key) s)).run (exec md5) s = _ at hr
            rw [hhead, size] at hr
            cases hr
            have hrange := congrArg (fun resp : Response => resp.headers.getAll contentRange.val) hresp
            rw [errorResponse_contentRange, errorResponse_contentRange,
              (RangeReads.invalidRange_spec _).2,
              (RangeReads.invalidRange_spec n).2] at hrange
            have hn := decimal_injective (List.append_cancel_left (List.cons.inj hrange).1)
            obtain ⟨r', hr', hrefused⟩ := heldRead_invalidRange.mp hread
            cases hr'
            rw [hn, hfit] at hrefused
            cases hrefused

end Downloads

section Answers

variable {ι : Type} [DecidableEq ι]

/-- A download refused for the sake of a range that fits the size it announces. -/
def Misannounced (env : ReqEnv) (req : Request) (resp : Response) : Prop :=
  IsDownload req ∧ Misfit (contextOf env req) (requestedRange req.headers) resp

/-- What answers what it could have answered alone acted at one moment. -/
theorem fit_effect {P : Platform} {env : ReqEnv} {d : Delivered} (one : OneBucket d.request)
    {x y : Config DriverCall Reply Response Tables ι} {t : List (ι × Event DriverCall Reply)}
    (wf : WellFormed P.md5 x.state) (once : DrawnOnce x.state t) (run : Trace (exec P.md5) x t y)
    {i : ι} (thread : x.threads i = handle P env d.identity d.request)
    (quiet : IsRemoval d.request → created t = []) {resp : Response} (ended : y.threads i = .done resp)
    (fits : ¬Misannounced env d.request resp) : TookEffect (exec P.md5) x i resp t y := by
  by_cases hd : IsDownload d.request
  · have shape := @download_onBucket env d.request d.identity P hd
    rw [← thread] at shape
    rcases oneRead_effect wf once run shape ended with heff | hmisfit
    · exact heff
    · exact absurd ⟨hd, hmisfit⟩ fits
  · have shape := @handle_onBucket env d.request d.identity P d.writes one hd
    rw [← thread] at shape
    exact oneCall_effect wf once run shape quiet ended

/-- Among any others, a request about one bucket that has answered acted as if it had been alone at
one moment while it ran, exactly unless it is a download that announces a size in which the
range fits. A removal of a bucket needs that none is created meanwhile. -/
theorem request_took_effect (P : Platform) (env : ReqEnv) (d : Delivered) (one : OneBucket d.request)
    (x y : Config DriverCall Reply Response Tables ι) (t : List (ι × Event DriverCall Reply))
    (wf : WellFormed P.md5 x.state) (once : DrawnOnce x.state t) (run : Trace (exec P.md5) x t y)
    (i : ι) (thread : x.threads i = handle P env d.identity d.request)
    (quiet : IsRemoval d.request → created t = []) (resp : Response)
    (ended : y.threads i = .done resp) :
    TookEffect (exec P.md5) x i resp t y ↔ ¬Misannounced env d.request resp := by
  constructor
  · rintro ⟨m, heff⟩ ⟨hd, hmisfit⟩
    have shape := @download_onBucket env d.request d.identity P hd
    rw [← thread] at shape
    cases heff with
    | idle answer =>
      have hrun : (x.threads i).run (exec P.md5) x.state = some (resp, x.state) := by
        rw [answer, run_done]
      exact alone_fits wf shape hrun hmisfit
    | call made hz step alone still => exact alone_fits (trace_wellFormed wf hz) shape alone hmisfit
    | between split hz begun unfinished alone still =>
      exact alone_fits (trace_wellFormed wf hz) shape alone hmisfit
  · exact fit_effect one wf once run thread quiet ended

def getMethod : Method := ⟨bytes "GET", get_token⟩
def putMethod : Method := ⟨bytes "PUT", put_token⟩

def userBody (u : UserInfo) (method : Method) (path : Str) (headers : HeaderMap) (payload : Str)
    (small : payload.length < 2 ^ 63) : Delivered :=
  ⟨.user ⟨u, bytes "AKID"⟩,
    { OwnerIsolation.bareRequest method path with headers := headers, body := bodyFromBytes payload },
    fun _ => ⟨payload, rfl, small⟩⟩

theorem range_name : isHeaderName (bytes "range") = true := by decide
theorem laterBytes_value : isHeaderValue (bytes "bytes=7-9") = true := by decide
theorem empty_small : ([] : Str).length < 2 ^ 63 := by decide

/-- Alice reads bytes of her notes that are not there yet. -/
def readLater : Delivered :=
  userBody OwnerIsolation.alice getMethod (bytes "/docs/notes")
    ⟨[(⟨bytes "range", range_name⟩, ⟨bytes "bytes=7-9", laterBytes_value⟩)]⟩ [] empty_small

def writeLonger : Delivered :=
  userBody OwnerIsolation.alice putMethod (bytes "/docs/notes") .empty (bytes "hello world") (by decide)

def readAndWrite : Config DriverCall Reply Response Tables (Fin 2) :=
  ⟨withNotes, fun i => handle (.ofTables [] [] []) (OwnerIsolation.drawn (bytes "id-3")) aliceUser
    (if i = 0 then readLater else writeLonger).request⟩

theorem withNotes_wellFormed : WellFormed sampleMd5 withNotes :=
  wellFormed_change OwnerIsolation.twoBuckets.2
    (.object _ _ notes.owner notes.attrs notes.data notes.mtime docs_there (by decide))

/-- The range is refused for five bytes, eleven are written, and the refusal says eleven: the
upload acted at one moment and the download at none. -/
theorem request_took_effect_notes : ∃ t y refusal answer, y.threads 0 = .done refusal ∧
    y.threads 1 = .done answer ∧
    Trace (exec sampleMd5) readAndWrite t y ∧
    ¬TookEffect (exec sampleMd5) readAndWrite 0 refusal t y ∧
    TookEffect (exec sampleMd5) readAndWrite 1 answer t y := by
  have hplay : ((Config.play (exec sampleMd5) [0, 0, 1, 1, 0] ([], readAndWrite)).bind fun r =>
      (r.2.threads 0).result.bind fun refusal => (r.2.threads 1).result.map fun answer =>
        (created r.1, refusal, answer.status)) =
      some ([], errorResponse ⟨bytes "/docs/notes", [], false⟩ (invalidRange 11), 200) := by
    decide +kernel
  obtain ⟨⟨t, y⟩, hr, hplay⟩ := Option.bind_eq_some_iff.mp hplay
  obtain ⟨refusal, hrefusal, hplay⟩ := Option.bind_eq_some_iff.mp hplay
  obtain ⟨answer, hanswer, hplay⟩ := Option.map_eq_some_iff.mp hplay
  simp only [Prod.mk.injEq] at hplay
  obtain ⟨hcreated, rfl, -⟩ := hplay
  have run : Trace (exec sampleMd5) readAndWrite t y := play_trace .nil hr
  have once : DrawnOnce readAndWrite.state t := by
    rw [DrawnOnce, hcreated]
    exact ⟨.nil, fun _ h => by cases h⟩
  have h0 := result_eq_some.mp hrefusal
  have h1 := result_eq_some.mp hanswer
  refine ⟨t, y, _, answer, h0, h1, run, ?_, ?_⟩
  · intro heff
    refine (request_took_effect (.ofTables [] [] []) (OwnerIsolation.drawn (bytes "id-3")) readLater
      trivial
      readAndWrite y t withNotes_wellFormed once run 0 rfl (fun _ => hcreated) _ h0).mp heff ?_
    exact ⟨⟨rfl, _, _, rfl⟩, .absolute 7 (some 9), 11, (7, 9), by decide, by decide, rfl⟩
  · refine (request_took_effect (.ofTables [] [] []) (OwnerIsolation.drawn (bytes "id-3")) writeLonger
      trivial readAndWrite y t withNotes_wellFormed once run 1 rfl (fun _ => hcreated) _ h1).mpr ?_
    rintro ⟨⟨hget, -⟩, -⟩
    revert hget
    decide

end Answers

end RequestAtomicity
