import HazardTrace.Proofs.Collector.Arrival
import HazardTrace.Proofs.Report.Document

/-!
# Truncated reports

A writer that takes `n` bytes in all and then fails is compared with one that never fails. The same
report is made with both, side by side. Up to the failure the two agree in everything (`InStep`). A
write that fails leaves the first `n` bytes of what the other writer holds by then (`CutShort`), and
as the report stops there, and the other one only gets longer, they are the first `n` bytes of the
report in full.

What can become of two receivers side by side is `Receiver.Abreast`: they are alike still, with the
same result, or the first one has been cut short. It is shown in three layers.

* One text is written by both, or it is cut short (`InStep.writeText`). `KeepsFirst` is all that is
  asked of the first writer, and bounded storage is an example of it (`Storage.keepsFirst`).
* One delivery is received by both, or the first is cut short. The two formats are taken separately,
  because they keep different things besides their writers (`Beside`): the depth of indentation for
  text, and the groups that are held back for JSON.
* A run of deliveries follows from one (`Receiver.abreast_receiveAll`), for all receivers whose
  output only grows.

`exists_collect_truncated` carries this from deliveries to a collection, whose deliveries are known
in advance (`Context.deliveries`). In `collect_truncated` it is applied to both formats.
-/

namespace HazardTrace

/-- What is added behind does not change the beginning. -/
theorem extract_append_of_le {a : ByteArray} {n : Nat} (h : n ≤ a.size) (b : ByteArray) :
    (a ++ b).extract 0 n = a.extract 0 n := by
  rw [ByteArray.extract_append, Nat.zero_sub, Nat.sub_eq_zero_of_le h]
  simp

/-- `cut` is what is left of `full` when only `n` bytes are kept, and it is not all. -/
structure CutShort (n : Nat) (cut full : ByteArray) : Prop where
  eq : cut = full.extract 0 n
  lt : n < full.size

/-- What is cut short stays so when the full text goes on. -/
theorem CutShort.append {n : Nat} {cut full : ByteArray} (h : CutShort n cut full)
    (more : ByteArray) : CutShort n cut (full ++ more) := by
  refine ⟨?_, ?_⟩
  · rw [h.eq, extract_append_of_le h.lt.le]
  · have hlt := h.lt
    rw [ByteArray.size_append]
    omega

/-! ### Writers that take so much and no more -/

namespace Writer

variable {ω ω' : Type} [Writer ω] [Writer ω'] {n : Nat} {v : ω} {w : ω'}

/-- From now on the writer keeps the first `n` of all bytes, and a write fails if and only if that
is not all. -/
structure KeepsFirst (n : Nat) (v : ω) : Prop where
  accepted_write : ∀ {v'}, Reaches v v' → ∀ bytes,
    accepted (write v' bytes).1 = (accepted v' ++ bytes).extract 0 n
  write_ok_iff : ∀ {v'}, Reaches v v' → ∀ bytes,
    (write v' bytes).2 = .ok () ↔ (accepted v' ++ bytes).size ≤ n
  flush_ok : ∀ {v'}, Reaches v v' → (flush v').2 = .ok ()

theorem KeepsFirst.of_reaches {v' : ω} (h : KeepsFirst n v) (hv : Reaches v v') :
    KeepsFirst n v' :=
  ⟨fun hv' ↦ h.accepted_write (hv.trans hv'), fun hv' ↦ h.write_ok_iff (hv.trans hv'),
    fun hv' ↦ h.flush_ok (hv.trans hv')⟩

/-- Writes and flushes take nothing back. -/
theorem Reaches.exists_accepted {w' : ω'} (h : Reaches w w') :
    ∃ more, accepted w' = accepted w ++ more := by
  induction h with
  | refl => exact ⟨ByteArray.empty, ByteArray.append_empty.symm⟩
  | @write w' bytes _ ih =>
    obtain ⟨more, hmore⟩ := ih
    obtain ⟨k, haccepted, -⟩ := accepted_write w' bytes
    exact ⟨more ++ bytes.extract 0 k, by rw [haccepted, hmore, ByteArray.append_assoc]⟩
  | flush _ ih =>
    obtain ⟨more, hmore⟩ := ih
    exact ⟨more, by rw [accepted_flush, hmore]⟩

/-- A writer that takes `n` bytes and one that never fails, with the same bytes in them. -/
structure InStep (n : Nat) (v : ω) (w : ω') : Prop where
  keeps : KeepsFirst n v
  never : NeverFails w
  accepted : accepted v = accepted w
  size_le : (Writer.accepted w).size ≤ n

/-- **A text is written by both, or it is cut short.** -/
theorem InStep.writeText (h : InStep n v w) (text : String) :
    ∃ v' w', Writer.writeText w text = (w', .ok ()) ∧
      (Writer.writeText v text = (v', .ok ()) ∧ InStep n v' w' ∨
        ∃ fault, Writer.writeText v text = (v', .error fault) ∧
          CutShort n (Writer.accepted v') (Writer.accepted w')) := by
  have hwrite := h.never.write_ok .refl text.toUTF8
  have haccepted := accepted_write_of_ok hwrite
  have hcut := h.keeps.accepted_write .refl text.toUTF8
  have hiff := h.keeps.write_ok_iff .refl text.toUTF8
  rw [h.accepted, ← haccepted] at hcut hiff
  refine ⟨(write v text.toUTF8).1, _, Prod.ext rfl hwrite, ?_⟩
  match hresult : (write v text.toUTF8).2 with
  | .ok () =>
    have hsize := hiff.1 hresult
    refine .inl ⟨Prod.ext rfl hresult, h.keeps.of_reaches (.write _ .refl),
      h.never.of_reaches (.write _ .refl), ?_, hsize⟩
    exact hcut.trans (extract_of_size_le hsize)
  | .error fault =>
    refine .inr ⟨fault, Prod.ext rfl hresult, hcut, ?_⟩
    rw [hresult] at hiff
    exact Nat.lt_of_not_le fun hsize ↦ nomatch hiff.2 hsize

/-- A flush fails on neither side. -/
theorem InStep.flush (h : InStep n v w) :
    ∃ v' w', Writer.flush v = (v', .ok ()) ∧ Writer.flush w = (w', .ok ()) ∧ InStep n v' w' := by
  refine ⟨_, _, Prod.ext rfl (h.keeps.flush_ok .refl), Prod.ext rfl (h.never.flush_ok .refl),
    h.keeps.of_reaches (.flush .refl), h.never.of_reaches (.flush .refl), ?_, ?_⟩
  · rw [accepted_flush, accepted_flush, h.accepted]
  · rw [accepted_flush]
    exact h.size_le

end Writer

namespace Storage

variable {w : Storage} {n : Nat}

theorem room_eq (h : w.capacity = some n) (k : Nat) : w.room k = min k (n - w.bytes.size) := by
  rw [room, h]

/-- A write to bounded storage keeps as much as there is room for. -/
theorem bytes_write (hcapacity : w.capacity = some n) (hsize : w.bytes.size ≤ n)
    (bytes : ByteArray) : (w.write bytes).1.bytes = (w.bytes ++ bytes).extract 0 n := by
  show w.bytes ++ bytes.extract 0 (w.room bytes.size) = _
  rw [room_eq hcapacity, ByteArray.extract_append, extract_of_size_le hsize, Nat.zero_sub]
  rcases Nat.le_total bytes.size (n - w.bytes.size) with hfits | hcut
  · rw [Nat.min_eq_left hfits, extract_of_size_le hfits, extract_of_size_le (Nat.le_refl _)]
  · rw [Nat.min_eq_right hcut]

/-- A write succeeds if there is room for all of it. -/
theorem write_ok_iff (hcapacity : w.capacity = some n) (hsize : w.bytes.size ≤ n)
    (bytes : ByteArray) : (w.write bytes).2 = .ok () ↔ (w.bytes ++ bytes).size ≤ n := by
  show (if bytes.size ≤ w.room bytes.size then Except.ok () else .error "disk full") = .ok () ↔ _
  rw [room_eq hcapacity, ByteArray.size_append]
  split
  · exact ⟨fun _ ↦ by omega, fun _ ↦ rfl⟩
  · exact ⟨nofun, fun _ ↦ by omega⟩

/-- Bounded storage keeps what fits. -/
theorem keepsFirst (hcapacity : w.capacity = some n) (hflush : w.failsFlush = false)
    (hsize : w.bytes.size ≤ n) : Writer.KeepsFirst n w := by
  have hkept : ∀ {w'}, Writer.Reaches w w' →
      w'.capacity = some n ∧ w'.failsFlush = false ∧ w'.bytes.size ≤ n := by
    intro w' h
    induction h with
    | refl => exact ⟨hcapacity, hflush, hsize⟩
    | @write w' bytes _ ih =>
      refine ⟨ih.1, ih.2.1, ?_⟩
      show (w'.write bytes).1.bytes.size ≤ n
      rw [bytes_write ih.1 ih.2.2, ByteArray.size_extract]
      omega
    | flush _ ih => exact ih
  refine ⟨fun h ↦ bytes_write (hkept h).1 (hkept h).2.2,
    fun h ↦ write_ok_iff (hkept h).1 (hkept h).2.2, fun {w'} h ↦ ?_⟩
  show (if w'.failsFlush = true then _ else Except.ok ()) = _
  rw [(hkept h).2.1]
  rfl

end Storage

/-! ### Two receivers side by side -/

namespace Receiver

variable {σ τ : Type} [Receiver σ] [Receiver τ]

/-- What becomes of two receivers that are kept alike by `R`, the first of which may be cut
short. -/
inductive Abreast (n : Nat) (cut : σ → ByteArray) (full : τ → ByteArray) (R : σ → τ → Prop) :
    σ × Except Error Unit → τ × Except Error Unit → Prop
  | alike {s : σ} {t : τ} (result : Except Error Unit) : R s t →
      Abreast n cut full R (s, result) (t, result)
  | short {s : σ} {t : τ} (fault : String) (result : Except Error Unit) :
      CutShort n (cut s) (full t) → Abreast n cut full R (s, .error (.output fault)) (t, result)

variable {n : Nat} {cut : σ → ByteArray} {full : τ → ByteArray} {R : σ → τ → Prop}

/-- What only grows with each delivery grows with all of them. -/
theorem exists_full_receiveAll (hgrows : ∀ t d, ∃ more, full (receive t d).1 = full t ++ more)
    (t : τ) (ds : List Delivery) : ∃ more, full (receiveAll t ds).1 = full t ++ more := by
  induction ds generalizing t with
  | nil => exact ⟨ByteArray.empty, ByteArray.append_empty.symm⟩
  | cons d ds ih =>
    obtain ⟨more, hmore⟩ := hgrows t d
    rw [receiveAll]
    split
    next t' ht' =>
      rw [ht'] at hmore
      obtain ⟨more', hmore'⟩ := ih t'
      exact ⟨more ++ more', by rw [hmore', hmore, ByteArray.append_assoc]⟩
    next t' e ht' =>
      rw [ht'] at hmore
      exact ⟨more, hmore⟩

/-- **What holds of one delivery to both holds of a run.** Where the first receiver stops, the
second may go on, and what it holds only gets longer. -/
theorem abreast_receiveAll (hstep : ∀ {s t}, R s t → ∀ d,
      Abreast n cut full R (receive s d) (receive t d))
    (hgrows : ∀ t d, ∃ more, full (receive t d).1 = full t ++ more) {s : σ} {t : τ} (h : R s t)
    (ds : List Delivery) : Abreast n cut full R (receiveAll s ds) (receiveAll t ds) := by
  induction ds generalizing s t with
  | nil => exact .alike (.ok ()) h
  | cons d ds ih =>
    have hd := hstep h d
    rw [receiveAll, receiveAll]
    generalize receive s d = run at hd
    generalize receive t d = run' at hd
    cases hd with
    | alike result hR =>
      cases result with
      | ok _ => exact ih hR
      | error e => exact .alike (.error e) hR
    | @short s' t' fault result hcut =>
      cases result with
      | ok _ =>
        -- only the second receiver goes on from here
        obtain ⟨more, hmore⟩ := exists_full_receiveAll hgrows t' ds
        exact .short fault (receiveAll t' ds).2 (hmore ▸ hcut.append more)
      | error e => exact .short fault (.error e) hcut

end Receiver

/-! ### Text -/

namespace TextReport

open Writer (InStep)

variable {ω ω' : Type} [Writer ω] [Writer ω'] {n : Nat} {r : TextReport ω} {r' : TextReport ω'}

/-- The two reports differ in their writers only, and these are in step. -/
structure Beside (n : Nat) (r : TextReport ω) (r' : TextReport ω') : Prop where
  out : InStep n r.out r'.out
  depth : r.depth = r'.depth

/-- What becomes of the two. -/
abbrev Abreast (n : Nat) : TextReport ω × Except Error Unit → TextReport ω' × Except Error Unit →
    Prop :=
  Receiver.Abreast n (fun r ↦ Writer.accepted r.out) (fun r' ↦ Writer.accepted r'.out) (Beside n)

theorem reaches_receive (r : TextReport ω) (d : Delivery) :
    Writer.Reaches r.out (Receiver.receive r d).1.out := by
  match d with
  | .openGroup kind label count => exact .write _ .refl
  | .chain c => exact .write _ .refl
  | .closeGroup => exact .refl
  | .finish => exact .flush .refl

theorem Beside.abreast_put (h : Beside n r r') (ls : List String) :
    Abreast n (r.put ls) (r'.put ls) := by
  obtain ⟨v, w, hw, ⟨hv, hstep⟩ | ⟨fault, hv, hcut⟩⟩ := h.out.writeText (lines r.depth ls)
  · rw [put, put, ← h.depth, hv, hw]
    exact .alike (.ok ()) ⟨hstep, rfl⟩
  · rw [put, put, ← h.depth, hv, hw]
    exact .short fault (.ok ()) hcut

/-- One delivery to two text reports. -/
theorem Beside.abreast_receive (h : Beside n r r') (d : Delivery) :
    Abreast n (Receiver.receive r d) (Receiver.receive r' d) := by
  match d with
  | .openGroup kind label count =>
    have hopen : Beside n { r with depth := r.depth + 1 } { r' with depth := r'.depth + 1 } :=
      ⟨h.out, congrArg (· + 1) h.depth⟩
    exact hopen.abreast_put (groupLines kind label count)
  | .chain c => exact h.abreast_put (chainLines c)
  | .closeGroup => exact .alike (.ok ()) ⟨h.out, congrArg (· - 1) h.depth⟩
  | .finish =>
    obtain ⟨v, w, hv, hw, hstep⟩ := h.out.flush
    show Abreast n (receive r .finish) (receive r' .finish)
    rw [receive, receive, hv, hw]
    exact .alike (.ok ()) ⟨hstep, h.depth⟩

end TextReport

/-! ### JSON -/

namespace JsonReport

open Writer (InStep)

variable {ω ω' : Type} [Writer ω] [Writer ω'] {n : Nat} {r : JsonReport ω} {r' : JsonReport ω'}

/-- The two reports differ in their writers only, and these are in step. -/
structure Beside (n : Nat) (r : JsonReport ω) (r' : JsonReport ω') : Prop where
  out : InStep n r.out r'.out
  pending : r.pending = r'.pending
  written : r.written = r'.written
  finished : r.finished = r'.finished

/-- What becomes of the two. -/
abbrev Abreast (n : Nat) : JsonReport ω × Except Error Unit → JsonReport ω' × Except Error Unit →
    Prop :=
  Receiver.Abreast n (fun r ↦ Writer.accepted r.out) (fun r' ↦ Writer.accepted r'.out) (Beside n)

theorem reaches_writeItem (r : JsonReport ω) (item : Json) :
    Writer.Reaches r.out (r.writeItem item).1.out := by
  rw [writeItem]
  split
  · exact .refl
  · have hwrite : Writer.Reaches r.out (Writer.writeText r.out (itemText r.written item)).1 :=
      .write _ .refl
    split
    next out hout =>
      rw [hout] at hwrite
      exact hwrite
    next out fault hout =>
      rw [hout] at hwrite
      exact hwrite

theorem reaches_close (r : JsonReport ω) : Writer.Reaches r.out r.close.1.out := by
  rw [close]
  split
  · exact .refl
  · have hwrite : Writer.Reaches r.out (Writer.writeText r.out (closing r.written)).1 :=
      .write _ .refl
    split
    next out fault hout =>
      rw [hout] at hwrite
      exact hwrite
    next out hout =>
      rw [hout] at hwrite
      exact .flush hwrite

/-- A delivery does nothing to the writer but write and flush. -/
theorem reaches_receive (r : JsonReport ω) (d : Delivery) :
    Writer.Reaches r.out (Receiver.receive r d).1.out := by
  show Writer.Reaches r.out (receive r d).1.out
  match d with
  | .openGroup kind label count => exact .refl
  | .chain c =>
    rw [receive]
    split
    · exact reaches_writeItem r c.toJson
    · exact .refl
  | .closeGroup =>
    rw [receive]
    split
    · exact .refl
    next g _ => exact reaches_writeItem { r with pending := [] } g.toJson
    · exact .refl
  | .finish =>
    rw [receive]
    split
    · exact reaches_close r
    · exact .refl

/-- An item is written by both, or cut short. -/
theorem Beside.abreast_writeItem (h : Beside n r r') (item : Json) :
    Abreast n (r.writeItem item) (r'.writeItem item) := by
  rw [writeItem, writeItem, ← h.finished, ← h.written]
  split
  · exact .alike _ h
  · obtain ⟨v, w, hw, ⟨hv, hstep⟩ | ⟨fault, hv, hcut⟩⟩ := h.out.writeText (itemText r.written item)
    · rw [hv, hw]
      exact .alike (.ok ()) ⟨hstep, h.pending, rfl, rfl⟩
    · rw [hv, hw]
      exact .short fault (.ok ()) hcut

/-- The end of the document is written by both, or cut short. -/
theorem Beside.abreast_close (h : Beside n r r') :
    Abreast n r.close r'.close := by
  rw [close, close, ← h.finished, ← h.written]
  split
  · exact .alike _ h
  · obtain ⟨v, w, hw, ⟨hv, hstep⟩ | ⟨fault, hv, hcut⟩⟩ := h.out.writeText (closing r.written)
    · obtain ⟨v', w', hv', hw', hstep'⟩ := hstep.flush
      rw [hv, hw]
      dsimp only
      rw [hv', hw']
      exact .alike (.ok ()) ⟨hstep', h.pending, rfl, rfl⟩
    · rw [← Writer.accepted_flush w] at hcut
      rw [hv, hw]
      exact .short fault _ hcut

/-- One delivery to two JSON reports. What they hold back is the same, so they write at the same
time. -/
theorem Beside.abreast_receive (h : Beside n r r') (d : Delivery) :
    Abreast n (Receiver.receive r d) (Receiver.receive r' d) := by
  show Abreast n (receive r d) (receive r' d)
  match d with
  | .openGroup kind label count =>
    exact .alike (.ok ()) ⟨h.out, congrArg (_ :: ·) h.pending, h.written, h.finished⟩
  | .chain c =>
    rw [receive, receive, ← h.pending]
    split
    · exact h.abreast_writeItem c.toJson
    · exact .alike (.ok ()) ⟨h.out, rfl, h.written, h.finished⟩
  | .closeGroup =>
    rw [receive, receive, ← h.pending]
    split
    · exact .alike _ h
    next g _ =>
      have hclosed : Beside n { r with pending := [] } { r' with pending := [] } :=
        ⟨h.out, rfl, h.written, h.finished⟩
      exact hclosed.abreast_writeItem g.toJson
    · exact .alike (.ok ()) ⟨h.out, rfl, h.written, h.finished⟩
  | .finish =>
    rw [receive, receive, ← h.pending]
    split
    · exact h.abreast_close
    · exact .alike _ h

end JsonReport

/-! ### Reports -/

/-- What becomes of a report if only `n` bytes of it are kept. In full it is `full`, with the
summary `s`. -/
structure Truncated (n : Nat) (full cut : ByteArray) (s : Summary) (result : Except Error Summary) :
    Prop where
  bytes : cut = full.extract 0 (min n full.size)
  ok_iff : result = .ok s ↔ full.size ≤ n
  output : n < full.size → ∃ fault, result = .error (.output fault)

namespace Collector

section Abreast

variable {σ τ : Type} [Receiver σ] [Receiver τ] {n : Nat} {cut : σ → ByteArray}
  {full : τ → ByteArray} {R : σ → τ → Prop} {receiver : σ} {receiver' t : τ} {ctx : Context}
  {fs : List Finding}

/-- A collection is truncated as its deliveries are. -/
theorem exists_collect_truncated
    (halike : ∀ {s t}, R s t → cut s = full t ∧ (full t).size ≤ n)
    (habreast : Receiver.Abreast n cut full R (Receiver.receiveAll receiver (ctx.deliveries fs))
      (Receiver.receiveAll receiver' (ctx.deliveries fs)))
    (hok : Receiver.receiveAll receiver' (ctx.deliveries fs) = (t, .ok ())) :
    ∃ (col : Collector σ) (col' : Collector τ) (s : Summary) (result : Except Error Summary),
      collect ctx { receiver := receiver' } fs = (col', .ok s) ∧
      collect ctx { receiver } fs = (col, result) ∧
      Truncated n (full col'.receiver) (cut col.receiver) s result := by
  obtain ⟨col', s, hcollect', rfl⟩ := exists_collect_of_deliveries hok
  have hrun := receiveAll_of_collect ctx receiver fs
  rw [hok, hrun] at habreast
  match hcollect : collect ctx { receiver } fs with
  | (col, .ok s₁) =>
    rw [hcollect] at habreast
    refine ⟨col, col', s, .ok s₁, hcollect', rfl, ?_⟩
    obtain rfl : s₁ = s := summary_eq_of_collect hcollect' hcollect
    cases habreast with
    | alike _ hR =>
      obtain ⟨hbytes, hsize⟩ := halike hR
      refine ⟨?_, by simp [hsize], fun hlt ↦ absurd hlt (Nat.not_lt.2 hsize)⟩
      rw [Nat.min_eq_right hsize, extract_of_size_le (Nat.le_refl _), hbytes]
  | (col, .error e) =>
    rw [hcollect] at habreast
    refine ⟨col, col', s, .error e, hcollect', rfl, ?_⟩
    cases habreast with
    | short fault _ hcut =>
      have hlt := hcut.lt
      refine ⟨?_, ⟨nofun, fun hsize ↦ absurd hsize (Nat.not_le.2 hlt)⟩, fun _ ↦ ⟨fault, rfl⟩⟩
      rw [Nat.min_eq_left hlt.le, hcut.eq]

end Abreast

variable {ω ω' : Type} [Writer ω] [Writer ω'] {n : Nat} {v : ω} {w : ω'}

/-- **A writer that fails leaves the start of the report.** Of the bytes that a report has in full,
a writer that takes `n` keeps the first `n`. The report succeeds if that is all of them, and else
fails with what the writer says. So it is in both formats. -/
theorem collect_truncated (hv : Writer.KeepsFirst n v) (hv₀ : Writer.accepted v = ByteArray.empty)
    (hw : Writer.NeverFails w) (hw₀ : Writer.accepted w = ByteArray.empty) (ctx : Context)
    (fs : List Finding) :
    (∃ (cut : Collector (TextReport ω)) (full : Collector (TextReport ω')) (s : Summary)
      (result : Except Error Summary),
      collect ctx { receiver := { out := w } } fs = (full, .ok s) ∧
      collect ctx { receiver := { out := v } } fs = (cut, result) ∧
      Truncated n (Writer.accepted full.receiver.out) (Writer.accepted cut.receiver.out) s result) ∧
    ∃ (cut : Collector (JsonReport ω)) (full : Collector (JsonReport ω')) (s : Summary)
      (result : Except Error Summary),
      collect ctx { receiver := { out := w } } fs = (full, .ok s) ∧
      collect ctx { receiver := { out := v } } fs = (cut, result) ∧
      Truncated n (Writer.accepted full.receiver.out) (Writer.accepted cut.receiver.out) s
        result := by
  have hstep : Writer.InStep n v w := ⟨hv, hw, hv₀.trans hw₀.symm, by simp [hw₀]⟩
  constructor
  · have hbeside : TextReport.Beside n ({ out := v } : TextReport ω) ({ out := w } : TextReport ω') :=
      ⟨hstep, rfl⟩
    obtain ⟨r, hr⟩ := ctx.exists_receiveAll_text hw fs
    exact exists_collect_truncated (fun h ↦ ⟨h.out.accepted, h.out.size_le⟩)
      (Receiver.abreast_receiveAll (fun h d ↦ h.abreast_receive d)
        (fun r d ↦ (TextReport.reaches_receive r d).exists_accepted) hbeside _) hr
  · have hbeside : JsonReport.Beside n ({ out := v } : JsonReport ω) ({ out := w } : JsonReport ω') :=
      ⟨hstep, rfl, rfl, rfl⟩
    obtain ⟨r, hr, -⟩ := JsonReport.exists_receiveAll_sections hw (ctx.sectionsOf fs)
    rw [ctx.flatMap_deliveries_sectionsOf] at hr
    exact exists_collect_truncated (fun h ↦ ⟨h.out.accepted, h.out.size_le⟩)
      (Receiver.abreast_receiveAll (fun h d ↦ h.abreast_receive d)
        (fun r d ↦ (JsonReport.reaches_receive r d).exists_accepted) hbeside _) hr

/-- A method with a warning, and a caller. -/
def oneWarning : Context where
  numbering := .empty
  marking := ⟨#[{ note := some (.warn ⟨"Trim", "risky", .memberTrimming⟩) }, {}]⟩
  grouping := .none

/-- Four bytes of a text report. -/
theorem collect_truncated_oneWarning :
    ∃ (cut full : Collector (TextReport Storage)) (s : Summary) (fault : String),
      collect oneWarning { receiver := { out := {} } } [⟨0, [[0, 1]]⟩] = (full, .ok s) ∧
      collect oneWarning { receiver := { out := { capacity := some 4 } } } [⟨0, [[0, 1]]⟩] =
        (cut, .error (.output fault)) ∧
      cut.receiver.out.bytes = full.receiver.out.bytes.extract 0 4 := by
  obtain ⟨⟨cut, full, s, result, hfull, hcut, htruncated⟩, -⟩ :=
    collect_truncated (Storage.keepsFirst (w := { capacity := some 4 }) rfl rfl (Nat.zero_le 4)) rfl
      (Storage.neverFails (w := {}) rfl rfl) rfl oneWarning [⟨0, [[0, 1]]⟩]
  have hsize : 4 < (collect oneWarning ({ receiver := { out := {} } } : Collector (TextReport Storage))
      [⟨0, [[0, 1]]⟩]).1.receiver.out.bytes.size := by
    decide +kernel
  rw [hfull] at hsize
  change 4 < (Writer.accepted full.receiver.out).size at hsize
  obtain ⟨fault, rfl⟩ := htruncated.output hsize
  have hbytes := htruncated.bytes
  rw [Nat.min_eq_left (Nat.le_of_lt hsize)] at hbytes
  exact ⟨cut, full, s, fault, hfull, hcut, hbytes⟩

end Collector

end HazardTrace
