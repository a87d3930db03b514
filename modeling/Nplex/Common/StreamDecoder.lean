import Mathlib.Data.List.Induction
import Mathlib.Tactic.SplitIfs

/-!
# Stream decoders

A decoder looks at the front of its buffer and finds an item, a front to reject, or too little
to decide. What it decides does not depend on what follows. Such a decoder finds the same items
however the stream is split into chunks.
-/

namespace Nplex.Common

variable {A B : Type*}

/-- What a decoder finds at the front of its buffer. -/
inductive Front (B : Type*)
  | incomplete
  | reject
  /-- An item that takes a number of elements. -/
  | item (b : B) (n : ℕ)

/-- A decoder. Its items take some elements of the buffer, and more elements change neither an
item nor a rejection. -/
structure Decoder (A B : Type*) where
  front : List A → Front B
  front_nil : front [] = .incomplete
  consumes : ∀ {buf : List A} {b : B} {n : ℕ}, front buf = .item b n → 0 < n ∧ n ≤ buf.length
  item_append : ∀ {buf : List A} {b : B} {n : ℕ} (more : List A), front buf = .item b n →
    front (buf ++ more) = .item b n
  reject_append : ∀ {buf : List A} (more : List A), front buf = .reject →
    front (buf ++ more) = .reject

/-- The buffer of a decoder, the items found so far, and whether a front was rejected. -/
structure Decoded (A B : Type*) where
  buffer : List A
  items : List B := []
  rejected : Bool := false

/-- The same items and rejections, and the same buffer while nothing is rejected. -/
def Decoded.Same (s s' : Decoded A B) : Prop :=
  s.items = s'.items ∧ s.rejected = s'.rejected ∧ (s'.rejected = false → s.buffer = s'.buffer)

/-- Being the same is symmetric. -/
theorem Decoded.Same.symm {s s' : Decoded A B} (h : s.Same s') : s'.Same s :=
  ⟨h.1.symm, h.2.1.symm, fun hgoes => (h.2.2 (h.2.1 ▸ hgoes)).symm⟩

/-- Being the same is transitive. -/
theorem Decoded.Same.trans {s s' s'' : Decoded A B} (h : s.Same s') (h' : s'.Same s'') :
    s.Same s'' :=
  ⟨h.1.trans h'.1, h.2.1.trans h'.2.1, fun hgoes =>
    (h.2.2 (h'.2.1.trans hgoes)).trans (h'.2.2 hgoes)⟩

namespace Decoder

variable (d : Decoder A B)

/-- Decode all that the buffer holds. -/
def drain (buf : List A) : Decoded A B :=
  match _hfront : d.front buf with
  | .incomplete => { buffer := buf }
  | .reject => { buffer := buf, rejected := true }
  | .item b n =>
    let rest := drain (buf.drop n)
    { rest with items := b :: rest.items }
termination_by buf.length
decreasing_by
  have hconsumes := d.consumes _hfront
  rw [List.length_drop]
  omega

/-- A further chunk arrives. After a rejection nothing is decoded. -/
def feed (s : Decoded A B) (chunk : List A) : Decoded A B :=
  if s.rejected then s
  else
    let rest := d.drain (s.buffer ++ chunk)
    { rest with items := s.items ++ rest.items }

variable {d}

/-- An incomplete item waits in the buffer. -/
theorem drain_of_incomplete {buf : List A} (h : d.front buf = .incomplete) :
    d.drain buf = { buffer := buf } := by
  rw [drain]
  split
  · rfl
  · next hreject => rw [h] at hreject; cases hreject
  · next b n hitem => rw [h] at hitem; cases hitem

/-- A rejected item ends the stream. -/
theorem drain_of_reject {buf : List A} (h : d.front buf = .reject) :
    d.drain buf = { buffer := buf, rejected := true } := by
  rw [drain]
  split
  · next hincomplete => rw [h] at hincomplete; cases hincomplete
  · rfl
  · next b n hitem => rw [h] at hitem; cases hitem

/-- An item is taken from the front, and the rest is drained. -/
theorem drain_of_item {buf : List A} {b : B} {n : ℕ} (h : d.front buf = .item b n) :
    d.drain buf =
      { d.drain (buf.drop n) with items := b :: (d.drain (buf.drop n)).items } := by
  rw [drain]
  split
  · next hincomplete => rw [h] at hincomplete; cases hincomplete
  · next hreject => rw [h] at hreject; cases hreject
  · next b' n' hitem =>
    rw [h] at hitem
    cases hitem
    rfl

/-- Nothing is left to decode, or decoding is over. -/
def Done (d : Decoder A B) (s : Decoded A B) : Prop :=
  s.rejected = false → d.front s.buffer = .incomplete

/-- Nothing complete is left in a drained buffer. -/
theorem drain_done (buf : List A) : d.Done (d.drain buf) := by
  induction buf using drain.induct d with
  | case1 buf h =>
    rw [drain_of_incomplete h]
    exact fun _ => h
  | case2 buf h => simp [drain_of_reject h, Done]
  | case3 buf b n h ih =>
    rw [drain_of_item h]
    exact ih

/-- Nothing complete is left after a chunk. -/
theorem feed_done {s : Decoded A B} (h : d.Done s) (chunk : List A) : d.Done (d.feed s chunk) := by
  unfold feed
  split
  · exact h
  · exact drain_done (d := d) (s.buffer ++ chunk)

/-- An empty chunk brings nothing. -/
theorem feed_nil {s : Decoded A B} (h : d.Done s) : d.feed s [] = s := by
  unfold feed
  split
  · rfl
  · next hgoes =>
    obtain ⟨buffer, items, rejected⟩ := s
    simp only [Bool.not_eq_true] at hgoes
    subst hgoes
    simp [drain_of_incomplete (h rfl)]

/-- Decoding goes on where it stopped. -/
theorem drain_append (buf more : List A) :
    (d.drain (buf ++ more)).Same (d.feed (d.drain buf) more) := by
  induction buf using drain.induct d with
  | case1 buf h => simp [drain_of_incomplete h, feed, Decoded.Same]
  | case2 buf h =>
    simp [drain_of_reject h, drain_of_reject (d.reject_append more h), feed, Decoded.Same]
  | case3 buf b n h ih =>
    have hle := (d.consumes h).2
    rw [drain_of_item h, drain_of_item (d.item_append more h), List.drop_append_of_le_length hle]
    obtain ⟨hitems, hrejected, hbuffer⟩ := ih
    generalize d.drain (buf.drop n ++ more) = whole at hitems hrejected hbuffer ⊢
    generalize d.drain (buf.drop n) = first at hitems hrejected hbuffer ⊢
    cases hstopped : first.rejected with
    | true =>
      simp only [feed, hstopped, if_true] at hitems hrejected
      simp [Decoded.Same, feed, hstopped, hitems, hrejected]
    | false =>
      simp only [feed, hstopped, Bool.false_eq_true, if_false] at hitems hrejected hbuffer
      simp only [Decoded.Same, feed, hstopped, Bool.false_eq_true, if_false, List.cons_append]
      exact ⟨congrArg (b :: ·) hitems, hrejected, hbuffer⟩

/-- What a chunk brings depends on what has been decoded only. -/
theorem Decoded.Same.feed {s s' : Decoded A B} (h : s.Same s') (chunk : List A) :
    (d.feed s chunk).Same (d.feed s' chunk) := by
  obtain ⟨hitems, hrejected, hbuffer⟩ := h
  cases hstopped : s'.rejected with
  | true =>
    rw [hstopped] at hrejected
    simp [Decoder.feed, Decoded.Same, hstopped, hrejected, hitems]
  | false =>
    rw [hstopped] at hrejected
    simp [Decoder.feed, Decoded.Same, hstopped, hrejected, hitems, hbuffer hstopped]

/-- What a decoder has made of its chunks is what it makes of the whole stream. -/
theorem feed_chunks (chunks : List (List A)) :
    (chunks.foldl d.feed { buffer := [] }).Same (d.drain chunks.flatten) := by
  induction chunks using List.reverseRecOn with
  | nil => simp [drain_of_incomplete d.front_nil, Decoded.Same]
  | append_singleton chunks chunk ih =>
    rw [List.foldl_append, List.flatten_append, List.flatten_singleton, List.foldl_cons,
      List.foldl_nil]
    exact (Decoded.Same.feed ih chunk).trans (drain_append chunks.flatten chunk).symm

end Decoder

end Nplex.Common
