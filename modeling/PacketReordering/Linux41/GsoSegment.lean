import PacketReordering.Gro.Bytes
import PacketReordering.Lib.Pieces
import PacketReordering.Linux41.Gso

/-!
# `linux-4.1`: segmentation

`inet_gso_segment` cuts a buffer that carries several segments, for a device that cannot do so itself.  The buffer is one
of TCP over IPv4 without tunnels and without `frag_list`; receive offload makes no other.  Checksums, `truesize` and the
owner of the buffer are left out, and so are the exits of `skb_segment` with `-ENOMEM`: all allocations succeed.

* `GsoSkb`, `Features` — a buffer and a device;
* `skbSegment`, `tcpGsoSegment`, `inetGsoSegment` — the functions;
* `skbSegment_ok` — the segments are the pieces of the payload, whatever the fragments it lies in;
* `inetGsoSegment_cut` — and their headers, if those of the buffer are of valid lengths, its `gso_type` is known, and the
  payload is longer than `gso_size`, which is not 0.
-/

namespace PacketReordering.Linux41

open Lib Gro

/-! ### The code -/

/-- A `struct sk_buff` on the way out: `linear` is the part that `skb->data` points to, and `doffset` bytes of headers from
the MAC header on are in front of it.  `id` is the one of the IP header. -/
structure GsoSkb where
  link : LinkHdr
  ip : IpHdr
  id : U16
  tcp : TcpHdr
  doffset : ℕ
  linear : List U8
  dataLen : ℕ
  frags : List Frag
  gsoSize : U16
  gsoSegs : U16
  gsoType : U16

/-- `netdev_features_t`: `NETIF_F_SG`, and the bits from `NETIF_F_GSO_SHIFT` on. -/
structure Features where
  sg : Bool
  gso : U16

/-- What the functions return instead of segments; in the last two cases they do not return. -/
inductive GsoError
  | inval
  | noMem
  | nullDeref
  | diverges
  deriving DecidableEq, Repr

namespace GsoSkb

/-- `skb->len` -/
def len (b : GsoSkb) : ℕ := b.linear.length + b.dataLen

/-- `pskb_may_pull(skb, n)` -/
def mayPull (pages : Pages) (b : GsoSkb) (n : ℕ) : Option GsoSkb :=
  let delta := n - b.linear.length
  if n ≤ b.linear.length then some b
  else if n ≤ b.len then
    some { b with
      linear := b.linear ++ (fragsBytes pages b.frags).take delta
      dataLen := b.dataLen - delta
      frags := Body.eatFrags delta b.frags }
  else none

/-- `__skb_pull(skb, n)` -/
def pull (b : GsoSkb) (n : ℕ) : GsoSkb := { b with linear := b.linear.drop n, doffset := b.doffset + n }

/-- The bytes from `skb->data` on. -/
def bytes (pages : Pages) (b : GsoSkb) : List U8 := b.linear ++ fragsBytes pages b.frags

end GsoSkb

/-- The loop `while (pos < offset + len)` of `skb_segment` from the fragment at the head of `frags` on: what is left of
them, `pos`, and the fragments of `nskb`.  Behind the last fragment comes `list_skb`, which is `NULL`. -/
def takeFrags (offset len : ℕ) : (frags : List Frag) → (pos : ℕ) → (nskbFrags : List Frag) →
    Except GsoError (List Frag × ℕ × List Frag)
  | [], pos, nskbFrags => if pos < offset + len then .error .nullDeref else .ok ([], pos, nskbFrags)
  | frag :: rest, pos, nskbFrags =>
    if pos < offset + len then
      if maxSkbFrags ≤ nskbFrags.length then .error .noMem
      else
        let nskbFrag := if pos < offset then frag.advance (offset - pos) else frag
        if pos + frag.size ≤ offset + len then takeFrags offset len rest (pos + frag.size) (nskbFrags ++ [nskbFrag])
        else
          let nskbFrag := { nskbFrag with size := nskbFrag.size - (pos + frag.size - (offset + len)) }
          .ok (frag :: rest, pos, nskbFrags ++ [nskbFrag])   -- `goto skip_fraglist`
    else .ok (frag :: rest, pos, nskbFrags)

/-- One turn of the loop of `skb_segment`, without `offset += len`: the new segment, the fragments left and `pos`. -/
def segmentTurn (pages : Pages) (sg : Bool) (headSkb : GsoSkb) (offset len : ℕ) (frags : List Frag) (pos : ℕ) :
    Except GsoError (GsoSkb × List Frag × ℕ) :=
  let hsize := headSkb.doffset + headSkb.linear.length - offset
  let hsize := if len < hsize || !sg then len else hsize
  let nskb := { headSkb with linear := [], dataLen := 0, frags := [], gsoSize := 0, gsoSegs := 0, gsoType := 0 }
  if hsize = 0 && frags.isEmpty then .error .nullDeref   -- `skb_headlen(list_skb)`
  else if len = 0 then .ok (nskb, frags, pos)   -- `goto perform_csum_check`
  else if !sg then
    .ok ({ nskb with linear := ((headSkb.bytes pages).drop (offset - headSkb.doffset)).take len }, frags, pos)
  else
    let linear := (headSkb.linear.drop (offset - headSkb.doffset)).take hsize
    (takeFrags offset len frags pos []).map fun r =>
      ({ nskb with linear := linear, dataLen := len - hsize, frags := r.2.2 }, r.1, r.2.1)

/-- The loop of `skb_segment`. -/
def segmentFrom (pages : Pages) (sg : Bool) (headSkb : GsoSkb) :
    ℕ → (offset : ℕ) → (frags : List Frag) → (pos : ℕ) → Except GsoError (List GsoSkb)
  | fuel, offset, frags, pos =>
    let len := min (headSkb.doffset + headSkb.len - offset) headSkb.gsoSize.toNat
    match segmentTurn pages sg headSkb offset len frags pos with
    | .error e => .error e
    | .ok (nskb, frags, pos) =>
      if offset + len < headSkb.doffset + headSkb.len then
        match fuel with
        | 0 => .error .diverges
        | fuel + 1 => (segmentFrom pages sg headSkb fuel (offset + len) frags pos).map (nskb :: ·)
      else .ok [nskb]

/-- `skb_segment(head_skb, features)` -/
def skbSegment (pages : Pages) (features : Features) (headSkb : GsoSkb) : Except GsoError (List GsoSkb) :=
  segmentFrom pages features.sg headSkb headSkb.len headSkb.doffset headSkb.frags
    (headSkb.doffset + headSkb.linear.length)

/-- `SKB_GSO_DODGY` -/
def skbGsoDodgy : U16 := 1 <<< 2

/-- `SKB_GSO_TCPV6` -/
def skbGsoTcpv6 : U16 := 1 <<< 4

/-- `net_gso_ok(features, gso_type)` -/
def netGsoOk (gso gsoType : U16) : Bool := gso &&& gsoType == gsoType

/-- The types with which `tcp_gso_segment` leaves the segmentation to the device: `SKB_GSO_TCPV4`, `SKB_GSO_DODGY`,
`SKB_GSO_TCP_ECN`, `SKB_GSO_TCPV6` and those of GRE, IPIP, SIT and UDP tunnels. -/
def tcpGsoTypes : U16 :=
  1 <<< 0 ||| 1 <<< 2 ||| 1 <<< 3 ||| 1 <<< 4 ||| 1 <<< 6 ||| 1 <<< 7 ||| 1 <<< 8 ||| 1 <<< 9 ||| 1 <<< 10 ||| 1 <<< 11 |||
    1 <<< 12

/-- The types that `inet_gso_segment` takes: the same and `SKB_GSO_UDP`. -/
def inetGsoTypes : U16 := tcpGsoTypes ||| 1 <<< 1

def GsoSkb.setFlags (b : GsoSkb) (flagWord : U32) : GsoSkb := { b with tcp := { b.tcp with flagWord := flagWord } }

/-- The loop of `tcp_gso_segment` over the segments: FIN and PSH stay in the last one, CWR in the first one. -/
def fixHeaders (mss : ℕ) : (seq : U32) → (skb : GsoSkb) → (rest : List GsoSkb) → Except GsoError (List GsoSkb)
  | _, _, [] => .error .nullDeref
  | seq, skb, next :: rest =>
    let skb := skb.setFlags (skb.tcp.flagWord &&& ~~~(tcpFlagFin ||| tcpFlagPsh))
    let seq := seq + BitVec.ofNat 32 mss
    let next := { next with tcp := { next.tcp with seq := seq, flagWord := next.tcp.flagWord &&& ~~~tcpFlagCwr } }
    if rest.isEmpty then .ok [skb, next] else (fixHeaders mss seq next rest).map (skb :: ·)

/-- `tcp_gso_segment(skb, features)`: the segments, or the buffer when it leaves them to the device. -/
def tcpGsoSegment (pages : Pages) (features : Features) (skb : GsoSkb) : Except GsoError (GsoSkb ⊕ List GsoSkb) :=
  let thlen := skb.tcp.thlen
  if thlen < 20 then .error .inval
  else
    match skb.mayPull pages thlen with
    | none => .error .inval
    | some skb =>
      let skb := skb.pull thlen
      let mss := skb.gsoSize.toNat
      if skb.len ≤ mss then .error .inval
      else if netGsoOk (features.gso ||| skbGsoDodgy) skb.gsoType then
        if skb.gsoType &&& ~~~tcpGsoTypes ≠ 0 || skb.gsoType &&& (skbGsoTcpv4 ||| skbGsoTcpv6) = 0 then .error .inval
        else .ok (.inl { skb with gsoSegs := BitVec.ofNat 16 ((skb.len + mss - 1) / mss) })
      else
        match skbSegment pages features skb with
        | .error e => .error e
        | .ok [] => .error .nullDeref
        | .ok (seg :: segs) => (fixHeaders mss seg.tcp.seq seg segs).map .inr

/-- `tcp4_gso_segment(skb, features)` -/
def tcp4GsoSegment (pages : Pages) (features : Features) (skb : GsoSkb) : Except GsoError (GsoSkb ⊕ List GsoSkb) :=
  match skb.mayPull pages 20 with
  | none => .error .inval
  | some skb => tcpGsoSegment pages features skb

/-- `iph->ihl * 4` -/
def ihlBytes (ip : IpHdr) : ℕ := (ip.verIhl &&& 0xf).toNat * 4

/-- The loop of `inet_gso_segment` over the segments. -/
def fixIpHeaders (nhoff : ℕ) : (id : U16) → List GsoSkb → List GsoSkb
  | _, [] => []
  | id, skb :: rest =>
    let totLen := BitVec.ofNat 16 (skb.doffset + skb.len - nhoff)
    { skb with id := id, ip := { skb.ip with totLen := totLen, badCsum := false } } :: fixIpHeaders nhoff (id + 1) rest

/-- `inet_gso_segment(skb, features)` for a packet of TCP. -/
def inetGsoSegment (pages : Pages) (features : Features) (skb : GsoSkb) : Except GsoError (GsoSkb ⊕ List GsoSkb) :=
  let nhoff := skb.doffset
  if skb.gsoType &&& ~~~inetGsoTypes ≠ 0 then .error .inval
  else
    match skb.mayPull pages 20 with
    | none => .error .inval
    | some skb =>
      let ihl := ihlBytes skb.ip
      if ihl < 20 then .error .inval
      else
        match skb.mayPull pages ihl with
        | none => .error .inval
        | some skb =>
          match tcp4GsoSegment pages features (skb.pull ihl) with
          | .error e => .error e
          | .ok (.inl skb) => .ok (.inl skb)
          | .ok (.inr segs) => .ok (.inr (fixIpHeaders nhoff skb.id segs))

/-! ### Cutting fragments -/

/-- The fragment is a part of `g`. -/
structure Within (f g : Frag) : Prop where
  page : f.page = g.page
  start : g.pageOffset ≤ f.pageOffset
  stop : f.pageOffset + f.size ≤ g.pageOffset + g.size

/-- Every fragment is a part of one of `gs`. -/
def AllWithin (fs gs : List Frag) : Prop := ∀ f ∈ fs, ∃ g ∈ gs, Within f g

variable {pages : Pages} {offset len pos pos' n : ℕ} {f g : Frag} {frags rest new gs : List Frag} {b headSkb s : GsoSkb}

theorem Within.refl (f : Frag) : Within f f := ⟨rfl, Nat.le_refl _, Nat.le_refl _⟩

theorem Within.trans {k : Frag} (h : Within f g) (h' : Within g k) : Within f k :=
  ⟨h.page.trans h'.page, h'.start.trans h.start, h.stop.trans h'.stop⟩

theorem Within.advance (h : n ≤ f.size) : Within (f.advance n) f := by
  refine ⟨rfl, Nat.le_add_right _ _, ?_⟩
  show f.pageOffset + n + (f.size - n) ≤ _
  omega

theorem Within.shorten (h : Within f g) : Within { f with size := f.size - n } g := by
  refine ⟨h.page, h.start, ?_⟩
  have hstop := h.stop
  show f.pageOffset + (f.size - n) ≤ _
  omega

theorem AllWithin.refl (fs : List Frag) : AllWithin fs fs := fun f hf => ⟨f, hf, Within.refl f⟩

theorem AllWithin.trans {ks : List Frag} (h : AllWithin frags gs) (h' : AllWithin gs ks) : AllWithin frags ks := by
  intro f hf
  obtain ⟨g, hg, hfg⟩ := h f hf
  obtain ⟨k, hk, hgk⟩ := h' g hg
  exact ⟨k, hk, hfg.trans hgk⟩

theorem AllWithin.cons (h : Within f g) (hg : g ∈ gs) (h' : AllWithin frags gs) : AllWithin (f :: frags) gs := by
  intro k hk
  rcases List.mem_cons.1 hk with rfl | hk
  · exact ⟨g, hg, h⟩
  · exact h' k hk

theorem AllWithin.of_subset (h : frags ⊆ gs) : AllWithin frags gs := fun f hf => ⟨f, h hf, Within.refl f⟩

theorem eatFrags_within (n : ℕ) (fs : List Frag) : AllWithin (Body.eatFrags n fs) fs := by
  induction fs generalizing n with
  | nil => exact AllWithin.refl []
  | cons f fs ih =>
    have hrest : ∀ m, AllWithin (Body.eatFrags m fs) (f :: fs) := fun m =>
      (ih m).trans (AllWithin.of_subset (List.subset_cons_self f fs))
    rw [Body.eatFrags]
    split
    · exact hrest _
    · rename_i hsize
      exact AllWithin.cons (Within.advance (Nat.le_of_not_le hsize)) (by simp) (hrest 0)

/-- The fragment at the place `pos` goes beyond `offset`. -/
def Beyond (offset pos : ℕ) (frags : List Frag) : Prop := pos < offset → ∃ f fs, frags = f :: fs ∧ offset < pos + f.size

/-- What the inner loop makes of the fragments from `pos` on: `new` are the bytes from `offset` to `offset + len`, as far as
they are not in front of `pos`. -/
structure Taken (pages : Pages) (offset len : ℕ) (frags : List Frag) (pos : ℕ) (rest : List Frag) (pos' : ℕ)
    (new : List Frag) : Prop where
  bytes : fragsBytes pages new = ((fragsBytes pages frags).drop (offset - pos)).take (offset + len - max offset pos)
  left : fragsBytes pages rest = (fragsBytes pages frags).drop (pos' - pos)
  le : pos ≤ pos'
  stop : pos' ≤ max pos (offset + len)
  beyond : Beyond (offset + len) pos' rest
  suffix : rest <:+ frags
  within : AllWithin new frags

theorem Taken.none (h : offset + len ≤ pos) : Taken pages offset len frags pos frags pos [] := by
  constructor
  · rw [Nat.sub_eq_zero_of_le (by omega : offset + len ≤ max offset pos), List.take_zero, fragsBytes_nil]
  · rw [Nat.sub_self, List.drop_zero]
  · exact Nat.le_refl _
  · omega
  · exact fun hlt => absurd hlt (Nat.not_lt.2 h)
  · exact List.suffix_rfl
  · exact fun f hf => absurd hf List.not_mem_nil

/-- The fragment at `pos`, without what is in front of `offset`. -/
theorem bytes_cut (pages : Pages) (hcut : offset - pos ≤ f.size) :
    (if pos < offset then f.advance (offset - pos) else f).bytes pages = (f.bytes pages).drop (offset - pos) ∧
      Within (if pos < offset then f.advance (offset - pos) else f) f := by
  split
  · exact ⟨Frag.bytes_advance, Within.advance hcut⟩
  · rw [Nat.sub_eq_zero_of_le (by omega), List.drop_zero]
    exact ⟨rfl, Within.refl f⟩

/-- **The inner loop takes what the segment needs**, if there is enough, and never leaves the arrays. -/
theorem takeFrags_ok {nskbFrags : List Frag} (hroom : nskbFrags.length + frags.length ≤ maxSkbFrags)
    (henough : offset + len ≤ pos + (fragsBytes pages frags).length) (hbeyond : Beyond offset pos frags) :
    ∃ rest pos' new, takeFrags offset len frags pos nskbFrags = .ok (rest, pos', nskbFrags ++ new) ∧
      Taken pages offset len frags pos rest pos' new := by
  induction frags generalizing pos nskbFrags with
  | nil =>
    have hend : offset + len ≤ pos := by simpa using henough
    refine ⟨[], pos, [], ?_, Taken.none hend⟩
    rw [takeFrags, if_neg (Nat.not_lt.2 hend), List.append_nil]
  | cons f fs ih =>
    rw [takeFrags]
    by_cases hpos : pos < offset + len
    · have hcut : offset - pos ≤ f.size := by
        by_cases hlt : pos < offset
        · obtain ⟨g, gs, hg, hsize⟩ := hbeyond hlt
          cases hg
          omega
        · omega
      obtain ⟨hbytes, hwithin⟩ := bytes_cut pages hcut
      generalize hnf : (if pos < offset then f.advance (offset - pos) else f) = nf at hbytes hwithin
      rw [List.length_cons] at hroom
      rw [fragsBytes_cons, List.length_append, Frag.bytes_length] at henough
      have hlength : ((f.bytes pages).drop (offset - pos)).length = f.size - (offset - pos) := by
        rw [List.length_drop, Frag.bytes_length]
      have hdrop : (fragsBytes pages (f :: fs)).drop (offset - pos) =
          (f.bytes pages).drop (offset - pos) ++ fragsBytes pages fs := by
        rw [fragsBytes_cons, List.drop_append_of_le_length (by rwa [Frag.bytes_length])]
      rw [if_pos hpos, if_neg (by omega : ¬ maxSkbFrags ≤ nskbFrags.length)]
      dsimp only
      by_cases hall : pos + f.size ≤ offset + len
      · -- the whole fragment, and the loop goes on
        have hnext : Beyond offset (pos + f.size) fs := fun hlt => by
          obtain ⟨g, gs, hg, hsize⟩ := hbeyond (by omega)
          cases hg
          omega
        have hroom' : (nskbFrags ++ [nf]).length + fs.length ≤ maxSkbFrags := by
          rw [List.length_append, List.length_singleton]
          omega
        have hleft : offset + len ≤ pos + f.size + (fragsBytes pages fs).length := by omega
        obtain ⟨rest, pos', new, hrun, htaken⟩ := ih hroom' hleft hnext
        refine ⟨rest, pos', nf :: new, ?_, ?_⟩
        · rw [if_pos hall, hrun, List.append_assoc, List.singleton_append]
        · have hle := htaken.le
          have hstop := htaken.stop
          constructor
          · have hmax : offset - (pos + f.size) = 0 := by
              by_cases hlt : pos < offset
              · obtain ⟨g, gs, hg, hsize⟩ := hbeyond hlt
                cases hg
                omega
              · omega
            have hwhole : ((f.bytes pages).drop (offset - pos)).take (offset + len - max offset pos) =
                (f.bytes pages).drop (offset - pos) := List.take_of_length_le (by omega)
            rw [fragsBytes_cons, hbytes, htaken.bytes, hdrop, List.take_append, hlength, hmax, List.drop_zero, hwhole]
            congr 2
            omega
          · have hgone : (f.bytes pages).drop (pos' - pos) = [] :=
              List.drop_of_length_le (by rw [Frag.bytes_length]; omega)
            rw [htaken.left, fragsBytes_cons, List.drop_append, hgone, List.nil_append, Frag.bytes_length]
            congr 1
            omega
          · omega
          · omega
          · exact htaken.beyond
          · exact htaken.suffix.trans (List.suffix_cons f fs)
          · exact AllWithin.cons hwithin (by simp)
              (htaken.within.trans (AllWithin.of_subset (List.subset_cons_self f fs)))
      · -- a part of the fragment is left
        rw [if_neg hall]
        refine ⟨f :: fs, pos, [{ nf with size := nf.size - (pos + f.size - (offset + len)) }], rfl, ?_⟩
        have hsize : nf.size = f.size - (offset - pos) := by
          rw [← Frag.bytes_length pages, hbytes, hlength]
        constructor
        · have hmin : nf.size - (pos + f.size - (offset + len)) = min (offset + len - max offset pos) nf.size := by omega
          rw [fragsBytes_cons, fragsBytes_nil, List.append_nil, hdrop, List.take_append_of_le_length (by omega), ← hbytes,
            Frag.bytes_take, hmin]
        · rw [Nat.sub_self, List.drop_zero]
        · exact Nat.le_refl _
        · omega
        · exact fun _ => ⟨f, fs, rfl, by omega⟩
        · exact List.suffix_rfl
        · exact AllWithin.cons hwithin.shorten (by simp) fun k hk => absurd hk List.not_mem_nil
    · have hend : offset + len ≤ pos := Nat.not_lt.1 hpos
      refine ⟨f :: fs, pos, [], ?_, Taken.none hend⟩
      rw [if_neg hpos, List.append_nil]

/-! ### Cutting the buffer -/

/-- `skb->data_len` is right, and the fragments fit into the array. -/
structure GsoSkb.Valid (b : GsoSkb) : Prop where
  dataLen : b.dataLen = (b.frags.map Frag.size).sum
  nrFrags : b.frags.length ≤ maxSkbFrags

/-- `s` has the headers of `headSkb`, and it points into the fragments of `headSkb`. -/
structure CutFrom (headSkb s : GsoSkb) : Prop where
  link : s.link = headSkb.link
  ip : s.ip = headSkb.ip
  id : s.id = headSkb.id
  tcp : s.tcp = headSkb.tcp
  doffset : s.doffset = headSkb.doffset
  gsoSize : s.gsoSize = 0
  dataLen : s.dataLen = (s.frags.map Frag.size).sum
  within : AllWithin s.frags headSkb.frags

/-- `frag` and `pos` of `skb_segment` when the segments up to `offset` are made. -/
structure Cursor (pages : Pages) (headSkb : GsoSkb) (offset : ℕ) (frags : List Frag) (pos : ℕ) : Prop where
  left : fragsBytes pages frags =
    (fragsBytes pages headSkb.frags).drop (pos - (headSkb.doffset + headSkb.linear.length))
  le : headSkb.doffset + headSkb.linear.length ≤ pos
  stop : pos ≤ max (headSkb.doffset + headSkb.linear.length) offset
  beyond : Beyond offset pos frags
  suffix : frags <:+ headSkb.frags

theorem GsoSkb.Valid.bytes_length (pages : Pages) (h : b.Valid) : (b.bytes pages).length = b.len := by
  rw [GsoSkb.bytes, List.length_append, fragsBytes_length, GsoSkb.len, h.dataLen]

theorem segmentTurn_linear (pages : Pages) (headSkb : GsoSkb) (offset : ℕ) (frags : List Frag) (pos : ℕ)
    (hlen : 0 < len) :
    ∃ s, segmentTurn pages false headSkb offset len frags pos = .ok (s, frags, pos) ∧ CutFrom headSkb s ∧
      s.bytes pages = ((headSkb.bytes pages).drop (offset - headSkb.doffset)).take len := by
  have hne : len ≠ 0 := Nat.pos_iff_ne_zero.1 hlen
  have hturn : segmentTurn pages false headSkb offset len frags pos = .ok
      ({ headSkb with
          linear := ((headSkb.bytes pages).drop (offset - headSkb.doffset)).take len, dataLen := 0, frags := []
          gsoSize := 0, gsoSegs := 0, gsoType := 0 }, frags, pos) := by
    simp [segmentTurn, hne]
  refine ⟨_, hturn, ⟨rfl, rfl, rfl, rfl, rfl, rfl, rfl, ?_⟩, ?_⟩
  · exact fun f hf => absurd hf List.not_mem_nil
  · exact List.append_nil _

/-- **A turn of `skb_segment` makes the segment from `offset` on**: the end of the linear part and the fragments behind
it. -/
theorem segmentTurn_sg (hv : headSkb.Valid) (hlen : 0 < len) (hdoff : headSkb.doffset ≤ offset)
    (hend : offset + len ≤ headSkb.doffset + headSkb.len) (hcur : Cursor pages headSkb offset frags pos) :
    ∃ s frags' pos', segmentTurn pages true headSkb offset len frags pos = .ok (s, frags', pos') ∧ CutFrom headSkb s ∧
      s.bytes pages = ((headSkb.bytes pages).drop (offset - headSkb.doffset)).take len ∧
      Cursor pages headSkb (offset + len) frags' pos' := by
  obtain ⟨hleft, hle, hstop, hbeyond, hsuffix⟩ := hcur
  have hcount := hsuffix.length_le
  have hmax := hv.nrFrags
  have htotal : headSkb.len = headSkb.linear.length + (fragsBytes pages headSkb.frags).length := by
    rw [← hv.bytes_length pages, GsoSkb.bytes, List.length_append]
  have hrest : (fragsBytes pages frags).length =
      (fragsBytes pages headSkb.frags).length - (pos - (headSkb.doffset + headSkb.linear.length)) := by
    rw [hleft, List.length_drop]
  have hplace : offset ≤ headSkb.doffset + headSkb.linear.length ∧ pos = headSkb.doffset + headSkb.linear.length ∨
      headSkb.doffset + headSkb.linear.length ≤ offset ∧ pos ≤ offset := by
    rcases Nat.le_total offset (headSkb.doffset + headSkb.linear.length) with h | h
    · rw [Nat.max_eq_left h] at hstop
      exact Or.inl ⟨h, Nat.le_antisymm hstop hle⟩
    · rw [Nat.max_eq_right h] at hstop
      exact Or.inr ⟨h, hstop⟩
  -- `hsize` is what is left of the linear part, if the segment needs as much
  obtain ⟨hsize, hsize_eq⟩ : ∃ n, n = min len (headSkb.doffset + headSkb.linear.length - offset) := ⟨_, rfl⟩
  have hhsize : (if len < headSkb.doffset + headSkb.linear.length - offset then len
      else headSkb.doffset + headSkb.linear.length - offset) = hsize := by
    split <;> omega
  have hsome : ¬ (hsize = 0 ∧ frags = []) := by
    rintro ⟨hzero, rfl⟩
    rw [fragsBytes_nil, List.length_nil] at hrest
    omega
  have hroom : ([] : List Frag).length + frags.length ≤ maxSkbFrags := by
    rw [List.length_nil]
    omega
  have henough : offset + len ≤ pos + (fragsBytes pages frags).length := by omega
  obtain ⟨rest, pos', new, hrun, htaken⟩ := takeFrags_ok hroom henough hbeyond
  have hnewbytes : fragsBytes pages new = ((fragsBytes pages headSkb.frags).drop
      (offset - (headSkb.doffset + headSkb.linear.length))).take (len - hsize) := by
    have hstart : pos - (headSkb.doffset + headSkb.linear.length) + (offset - pos) =
        offset - (headSkb.doffset + headSkb.linear.length) := by omega
    have hlength : offset + len - max offset pos = len - hsize := by omega
    rw [htaken.bytes, hleft, List.drop_drop, hstart, hlength]
  have hnewlen : len - hsize = (new.map Frag.size).sum := by
    rw [← fragsBytes_length pages, hnewbytes, List.length_take, List.length_drop]
    omega
  have hturn : segmentTurn pages true headSkb offset len frags pos = .ok
      ({ headSkb with
          linear := (headSkb.linear.drop (offset - headSkb.doffset)).take hsize, dataLen := len - hsize, frags := new
          gsoSize := 0, gsoSegs := 0, gsoType := 0 }, rest, pos') := by
    have hne : len ≠ 0 := Nat.pos_iff_ne_zero.1 hlen
    simp only [segmentTurn, Bool.not_true, Bool.or_false, decide_eq_true_eq, hhsize, Bool.and_eq_true,
      List.isEmpty_iff, hsome, hne, if_false, Bool.false_eq_true, hrun, Except.map, List.nil_append]
  refine ⟨_, rest, pos', hturn, ⟨rfl, rfl, rfl, rfl, rfl, rfl, hnewlen, ?_⟩, ?_, ?_⟩
  · exact htaken.within.trans (AllWithin.of_subset hsuffix.subset)
  · show (headSkb.linear.drop (offset - headSkb.doffset)).take hsize ++ fragsBytes pages new = _
    have hlinear : (headSkb.linear.drop (offset - headSkb.doffset)).take hsize =
        (headSkb.linear.drop (offset - headSkb.doffset)).take len := by
      rw [hsize_eq, show headSkb.doffset + headSkb.linear.length - offset =
        (headSkb.linear.drop (offset - headSkb.doffset)).length by rw [List.length_drop]; omega]
      exact List.take_eq_take_min.symm
    have hstart : offset - headSkb.doffset - headSkb.linear.length =
        offset - (headSkb.doffset + headSkb.linear.length) := by omega
    have hlength : len - (headSkb.linear.length - (offset - headSkb.doffset)) = len - hsize := by omega
    rw [hnewbytes, GsoSkb.bytes, List.drop_append, List.take_append, List.length_drop, hlinear, hstart, hlength]
  · have hpos := htaken.le
    have hpos' := htaken.stop
    constructor
    · rw [htaken.left, hleft, List.drop_drop]
      congr 1
      omega
    · omega
    · omega
    · exact htaken.beyond
    · exact htaken.suffix.trans hsuffix

/-- The loop of `skb_segment` makes one segment of each piece, when a turn does. -/
theorem segmentFrom_ok {sg : Bool} {I : ℕ → List Frag → ℕ → Prop} (hv : headSkb.Valid) (hmss : 0 < headSkb.gsoSize.toNat)
    (hturn : ∀ offset len frags pos, I offset frags pos → headSkb.doffset ≤ offset → 0 < len →
      offset + len ≤ headSkb.doffset + headSkb.len →
      ∃ s frags' pos', segmentTurn pages sg headSkb offset len frags pos = .ok (s, frags', pos') ∧ CutFrom headSkb s ∧
        s.bytes pages = ((headSkb.bytes pages).drop (offset - headSkb.doffset)).take len ∧ I (offset + len) frags' pos')
    (fuel : ℕ) (hI : I offset frags pos) (hdoff : headSkb.doffset ≤ offset) (hlt : offset < headSkb.doffset + headSkb.len)
    (hfuel : headSkb.doffset + headSkb.len ≤ offset + fuel + 1) :
    ∃ segs, segmentFrom pages sg headSkb fuel offset frags pos = .ok segs ∧ (∀ s ∈ segs, CutFrom headSkb s) ∧
      segs.map (GsoSkb.bytes pages) =
        pieces headSkb.gsoSize.toNat ((headSkb.bytes pages).drop (offset - headSkb.doffset)) := by
  have hbytes := hv.bytes_length pages
  induction fuel using Nat.strong_induction_on generalizing offset frags pos with | _ fuel ih => ?_
  obtain ⟨len, hlen⟩ : ∃ n, n = min (headSkb.doffset + headSkb.len - offset) headSkb.gsoSize.toNat := ⟨_, rfl⟩
  have hlength : ((headSkb.bytes pages).drop (offset - headSkb.doffset)).length = headSkb.doffset + headSkb.len - offset := by
    rw [List.length_drop, hbytes]
    omega
  have hne : (headSkb.bytes pages).drop (offset - headSkb.doffset) ≠ [] := by
    rw [← List.length_pos_iff]
    omega
  obtain ⟨s, frags', pos', hs, hcut, hpiece, hI'⟩ := hturn offset len frags pos hI hdoff (by omega) (by omega)
  have hfirst : s.bytes pages = ((headSkb.bytes pages).drop (offset - headSkb.doffset)).take headSkb.gsoSize.toNat := by
    rw [hpiece, hlen, ← hlength, Nat.min_comm]
    exact List.take_eq_take_min.symm
  rw [pieces_cons hmss hne, List.drop_drop]
  unfold segmentFrom
  rw [← hlen]
  dsimp only
  rw [hs]
  dsimp only
  by_cases hmore : offset + len < headSkb.doffset + headSkb.len
  · rw [if_pos hmore]
    have hfull : len = headSkb.gsoSize.toNat := by omega
    cases fuel with
    | zero => omega
    | succ fuel =>
      obtain ⟨segs, hsegs, hcuts, hpieces⟩ := ih fuel (Nat.lt_succ_self _) hI' (by omega) hmore (by omega)
      have hnext : offset + len - headSkb.doffset = offset - headSkb.doffset + headSkb.gsoSize.toNat := by omega
      rw [hnext] at hpieces
      refine ⟨s :: segs, ?_, ?_, ?_⟩
      · simp only [hsegs, Except.map]
      · exact List.forall_mem_cons.2 ⟨hcut, hcuts⟩
      · rw [List.map_cons, hfirst, hpieces]
  · rw [if_neg hmore]
    have hend : (headSkb.bytes pages).drop (offset - headSkb.doffset + headSkb.gsoSize.toNat) = [] := by
      refine List.drop_of_length_le ?_
      rw [hbytes]
      omega
    refine ⟨[s], rfl, List.forall_mem_singleton.2 hcut, ?_⟩
    rw [hend, pieces_nil hmss, List.map_singleton, hfirst]

/-- **`skb_segment` makes one segment of each piece of the payload**, wherever the fragments begin and end, and it does so
without leaving the arrays. -/
theorem skbSegment_ok (pages : Pages) (features : Features) (hv : headSkb.Valid) (hmss : 0 < headSkb.gsoSize.toNat)
    (hpos : 0 < headSkb.len) :
    ∃ segs, skbSegment pages features headSkb = .ok segs ∧ (∀ s ∈ segs, CutFrom headSkb s) ∧
      segs.map (GsoSkb.bytes pages) = pieces headSkb.gsoSize.toNat (headSkb.bytes pages) := by
  have hstart : (headSkb.bytes pages).drop (headSkb.doffset - headSkb.doffset) = headSkb.bytes pages := by
    rw [Nat.sub_self, List.drop_zero]
  unfold skbSegment
  rw [← hstart]
  cases features.sg with
  | false =>
    refine segmentFrom_ok (I := fun _ _ _ => True) hv hmss ?_ headSkb.len trivial (Nat.le_refl _) (by omega) (by omega)
    intro offset len frags pos _ _ hlen _
    obtain ⟨s, hs, hcut, hbytes⟩ := segmentTurn_linear pages headSkb offset frags pos hlen
    exact ⟨s, frags, pos, hs, hcut, hbytes, trivial⟩
  | true =>
    have hcur : Cursor pages headSkb headSkb.doffset headSkb.frags (headSkb.doffset + headSkb.linear.length) := by
      constructor
      · rw [Nat.sub_self, List.drop_zero]
      · exact Nat.le_refl _
      · exact Nat.le_max_left _ _
      · exact fun hlt => absurd hlt (by omega)
      · exact List.suffix_rfl
    refine segmentFrom_ok (I := Cursor pages headSkb) hv hmss ?_ headSkb.len hcur (Nat.le_refl _) (by omega) (by omega)
    intro offset len frags pos hcur hdoff hlen hend
    exact segmentTurn_sg hv hlen hdoff hend hcur

/-! ### The headers in front of the payload -/

/-- `c` is `b` with `skb->data` moved on by `k`; bytes of fragments may have come to the linear part. -/
structure Advanced (pages : Pages) (k : ℕ) (b c : GsoSkb) : Prop where
  link : c.link = b.link
  ip : c.ip = b.ip
  id : c.id = b.id
  tcp : c.tcp = b.tcp
  gsoSize : c.gsoSize = b.gsoSize
  gsoType : c.gsoType = b.gsoType
  doffset : c.doffset = b.doffset + k
  bytes : c.bytes pages = (b.bytes pages).drop k
  valid : c.Valid
  within : AllWithin c.frags b.frags

variable {k m : ℕ} {c d : GsoSkb}

theorem Advanced.trans (h : Advanced pages k b c) (h' : Advanced pages m c d) : Advanced pages (k + m) b d where
  link := h'.link.trans h.link
  ip := h'.ip.trans h.ip
  id := h'.id.trans h.id
  tcp := h'.tcp.trans h.tcp
  gsoSize := h'.gsoSize.trans h.gsoSize
  gsoType := h'.gsoType.trans h.gsoType
  doffset := by rw [h'.doffset, h.doffset, Nat.add_assoc]
  bytes := by rw [h'.bytes, h.bytes, List.drop_drop]
  valid := h'.valid
  within := h'.within.trans h.within

theorem Advanced.len_eq (hb : b.Valid) (h : Advanced pages k b c) : c.len = b.len - k := by
  rw [← h.valid.bytes_length pages, h.bytes, List.length_drop, hb.bytes_length]

/-- **A header that is there can be pulled to the linear part.** -/
theorem mayPull_ok (pages : Pages) (hb : b.Valid) (hn : n ≤ b.len) :
    ∃ c, b.mayPull pages n = some c ∧ Advanced pages 0 b c ∧ n ≤ c.linear.length := by
  unfold GsoSkb.mayPull
  by_cases hlinear : n ≤ b.linear.length
  · refine ⟨b, by simp [hlinear], ?_, hlinear⟩
    exact ⟨rfl, rfl, rfl, rfl, rfl, rfl, rfl, rfl, hb, AllWithin.refl _⟩
  · obtain ⟨delta, hdelta⟩ : ∃ d, d = n - b.linear.length := ⟨_, rfl⟩
    have hfrags : delta ≤ (fragsBytes pages b.frags).length := by
      have hlen := hb.bytes_length pages
      rw [GsoSkb.bytes, List.length_append] at hlen
      omega
    refine ⟨_, by simp only [hlinear, if_false, hn, if_true]; rfl, ?_, ?_⟩
    · refine ⟨rfl, rfl, rfl, rfl, rfl, rfl, rfl, ?_, ⟨?_, ?_⟩, eatFrags_within _ _⟩
      · show b.linear ++ (fragsBytes pages b.frags).take (n - b.linear.length) ++
          fragsBytes pages (Body.eatFrags (n - b.linear.length) b.frags) = _
        rw [fragsBytes_eatFrags, List.append_assoc, List.take_append_drop]
        rfl
      · show b.dataLen - (n - b.linear.length) = _
        rw [← fragsBytes_length pages, fragsBytes_eatFrags, List.length_drop, fragsBytes_length, hb.dataLen]
      · exact (eatFrags_length_le _ _).trans hb.nrFrags
    · show n ≤ (b.linear ++ (fragsBytes pages b.frags).take (n - b.linear.length)).length
      rw [List.length_append, List.length_take]
      omega

theorem pull_advanced (hb : b.Valid) (hn : n ≤ b.linear.length) : Advanced pages n b (b.pull n) := by
  refine ⟨rfl, rfl, rfl, rfl, rfl, rfl, rfl, ?_, ⟨hb.dataLen, hb.nrFrags⟩, AllWithin.refl _⟩
  show b.linear.drop n ++ fragsBytes pages b.frags = (b.linear ++ fragsBytes pages b.frags).drop n
  rw [List.drop_append_of_le_length hn]

/-- Both together. -/
theorem mayPull_pull (pages : Pages) (hb : b.Valid) (hn : n ≤ b.len) :
    ∃ c, b.mayPull pages n = some c ∧ Advanced pages n b (c.pull n) := by
  obtain ⟨c, hc, hadv, hlinear⟩ := mayPull_ok pages hb hn
  refine ⟨c, hc, ?_⟩
  have hboth := hadv.trans (pull_advanced hadv.valid hlinear)
  rwa [Nat.zero_add] at hboth

/-! ### The headers of the segments -/

/-- The TCP header of the segment `i` of `n`. -/
def segmentHeader (mss n i : ℕ) (th : TcpHdr) : TcpHdr :=
  let flags := if i = 0 then th.flagWord else th.flagWord &&& ~~~tcpFlagCwr
  { th with
    seq := th.seq + BitVec.ofNat 32 (i * mss)
    flagWord := if i + 1 = n then flags else flags &&& ~~~(tcpFlagFin ||| tcpFlagPsh) }

theorem segmentHeader_zero {mss : ℕ} {th : TcpHdr} (hn : 1 < n) :
    segmentHeader mss n 0 th = { th with flagWord := th.flagWord &&& ~~~(tcpFlagFin ||| tcpFlagPsh) } := by
  have hone : ¬ 0 + 1 = n := by omega
  simp [segmentHeader, hone]

theorem segmentHeader_succ {mss i : ℕ} {th : TcpHdr} :
    segmentHeader mss (n + 1) (i + 1) th = { th with
      seq := th.seq + BitVec.ofNat 32 ((i + 1) * mss)
      flagWord :=
        if i + 1 = n then th.flagWord &&& ~~~tcpFlagCwr
        else th.flagWord &&& ~~~tcpFlagCwr &&& ~~~(tcpFlagFin ||| tcpFlagPsh) } := by
  simp only [segmentHeader, Nat.add_one_ne_zero, if_false, Nat.add_right_cancel_iff]

/-- `s` is the segment `i` of `n` of the buffer `b` with `hlen` bytes of IP and TCP headers. -/
structure SegmentOf (pages : Pages) (b : GsoSkb) (hlen n i : ℕ) (s : GsoSkb) : Prop where
  bytes : s.bytes pages = (((b.bytes pages).drop hlen).drop (i * b.gsoSize.toNat)).take b.gsoSize.toNat
  tcp : s.tcp = segmentHeader b.gsoSize.toNat n i b.tcp
  ip : s.ip = { b.ip with totLen := BitVec.ofNat 16 (hlen + s.len), badCsum := false }
  id : s.id = b.id + BitVec.ofNat 16 i
  link : s.link = b.link
  doffset : s.doffset = b.doffset + hlen
  gsoSize : s.gsoSize = 0
  dataLen : s.dataLen = (s.frags.map Frag.size).sum
  within : AllWithin s.frags b.frags

theorem fixHeaders_ok (mss : ℕ) (seq : U32) (skb : GsoSkb) {rest : List GsoSkb} (hne : rest ≠ []) :
    ∃ segs, fixHeaders mss seq skb rest =
        .ok (skb.setFlags (skb.tcp.flagWord &&& ~~~(tcpFlagFin ||| tcpFlagPsh)) :: segs) ∧
      segs.length = rest.length ∧
      ∀ j (hj : j < rest.length) (hj' : j < segs.length), segs[j] = { rest[j] with
        tcp := { rest[j].tcp with
          seq := seq + BitVec.ofNat 32 ((j + 1) * mss)
          flagWord :=
            if j + 1 = rest.length then rest[j].tcp.flagWord &&& ~~~tcpFlagCwr
            else rest[j].tcp.flagWord &&& ~~~tcpFlagCwr &&& ~~~(tcpFlagFin ||| tcpFlagPsh) } } := by
  induction rest generalizing seq skb with
  | nil => exact absurd rfl hne
  | cons next rest ih =>
    obtain ⟨next', hnext'⟩ : ∃ t, t = { next with tcp := { next.tcp with
      seq := seq + BitVec.ofNat 32 mss, flagWord := next.tcp.flagWord &&& ~~~tcpFlagCwr } } := ⟨_, rfl⟩
    unfold fixHeaders
    dsimp only
    rw [← hnext']
    cases rest with
    | nil =>
      refine ⟨[next'], rfl, rfl, fun j hj hj' => ?_⟩
      obtain rfl : j = 0 := by simpa using hj
      simp [hnext']
    | cons next2 rest =>
      obtain ⟨segs, hsegs, hlength, hat⟩ := ih (seq + BitVec.ofNat 32 mss) next' (List.cons_ne_nil _ _)
      refine ⟨_ :: segs, by rw [hsegs]; rfl, ?_, ?_⟩
      · simp [hlength]
      · intro j hj hj'
        cases j with
        | zero => simp [hnext', GsoSkb.setFlags]
        | succ j =>
          have hseq : seq + BitVec.ofNat 32 mss + BitVec.ofNat 32 ((j + 1) * mss) =
              seq + BitVec.ofNat 32 ((j + 1 + 1) * mss) := by
            rw [BitVec.add_assoc, ← BitVec.ofNat_add, Nat.add_one_mul (j + 1), Nat.add_comm mss]
          have hlast : j + 1 + 1 = (next :: next2 :: rest).length ↔ j + 1 = (next2 :: rest).length := by
            rw [List.length_cons]
            omega
          simp only [List.getElem_cons_succ, hlast]
          rw [hat j (by simpa using hj) (by simpa using hj'), hseq]

theorem fixIpHeaders_length (nhoff : ℕ) (id : U16) (segs : List GsoSkb) :
    (fixIpHeaders nhoff id segs).length = segs.length := by
  induction segs generalizing id with
  | nil => rfl
  | cons s segs ih => rw [fixIpHeaders, List.length_cons, ih, List.length_cons]

theorem fixIpHeaders_getElem (nhoff : ℕ) (id : U16) (segs : List GsoSkb) (i : ℕ) (hi : i < segs.length)
    (hi' : i < (fixIpHeaders nhoff id segs).length) :
    (fixIpHeaders nhoff id segs)[i] = { segs[i] with
      id := id + BitVec.ofNat 16 i
      ip := { segs[i].ip with
        totLen := BitVec.ofNat 16 (segs[i].doffset + segs[i].len - nhoff), badCsum := false } } := by
  induction segs generalizing id i with
  | nil => exact absurd hi (Nat.not_lt_zero i)
  | cons s segs ih =>
    cases i with
    | zero => simp [fixIpHeaders]
    | succ i =>
      have hid : id + 1 + BitVec.ofNat 16 i = id + BitVec.ofNat 16 (i + 1) := by
        rw [BitVec.add_assoc, Nat.add_comm i, BitVec.ofNat_add]
        rfl
      simp only [fixIpHeaders, List.getElem_cons_succ]
      rw [ih (id + 1) i (by simpa using hi) (by rw [fixIpHeaders_length]; simpa using hi), hid]

/-! ### The whole way -/

theorem tcpGsoSegment_cut (pages : Pages) {features : Features} (hb : b.Valid) (hthlen : 20 ≤ b.tcp.thlen) (hsize : 0 < b.gsoSize.toNat)
    (hlen : b.tcp.thlen + b.gsoSize.toNat < b.len)
    (hsoft : netGsoOk (features.gso ||| skbGsoDodgy) b.gsoType = false) :
    ∃ c segs, Advanced pages b.tcp.thlen b c ∧ tcpGsoSegment pages features b = .ok (.inr segs) ∧
      segs.length = (pieces b.gsoSize.toNat (c.bytes pages)).length ∧
      ∀ i (hi : i < segs.length), ∃ s, CutFrom c s ∧
        s.bytes pages = ((c.bytes pages).drop (i * b.gsoSize.toNat)).take b.gsoSize.toNat ∧
        segs[i] = { s with tcp := segmentHeader b.gsoSize.toNat segs.length i b.tcp } := by
  obtain ⟨b', hpull, hadv⟩ := mayPull_pull pages hb (n := b.tcp.thlen) (by omega)
  obtain ⟨c, hc⟩ : ∃ c, c = b'.pull b.tcp.thlen := ⟨_, rfl⟩
  rw [← hc] at hadv
  have hclen := hadv.len_eq hb
  obtain ⟨segs, hsegs, hcuts, hpieces⟩ := skbSegment_ok pages features hadv.valid (by rw [hadv.gsoSize]; exact hsize)
    (by omega)
  rw [hadv.gsoSize] at hpieces
  have hcount : segs.length = (pieces b.gsoSize.toNat (c.bytes pages)).length := by rw [← hpieces, List.length_map]
  have htwo : 2 ≤ segs.length := by
    rw [hcount, length_pieces, hadv.valid.bytes_length, Nat.le_div_iff_mul_le hsize]
    omega
  have hat : ∀ i (hi : i < segs.length), CutFrom c segs[i] ∧
      segs[i].bytes pages = ((c.bytes pages).drop (i * b.gsoSize.toNat)).take b.gsoSize.toNat := by
    intro i hi
    have hpiece : (segs.map (GsoSkb.bytes pages))[i]? = (pieces b.gsoSize.toNat (c.bytes pages))[i]? := by rw [hpieces]
    rw [List.getElem?_map, List.getElem?_eq_getElem hi, List.getElem?_eq_getElem (hcount ▸ hi), Option.map_some,
      Option.some.injEq, getElem_pieces] at hpiece
    exact ⟨hcuts _ (List.getElem_mem hi), hpiece⟩
  obtain ⟨s0, rest, rfl⟩ := List.exists_cons_of_length_pos (l := segs) (by omega)
  · rw [List.length_cons] at htwo
    have hrest : 0 < rest.length := by omega
    have hne : rest ≠ [] := List.length_pos_iff.1 hrest
    obtain ⟨fixed, hfixed, hlength, hheaders⟩ := fixHeaders_ok b.gsoSize.toNat s0.tcp.seq s0 hne
    have hrun : tcpGsoSegment pages features b =
        .ok (.inr (s0.setFlags (s0.tcp.flagWord &&& ~~~(tcpFlagFin ||| tcpFlagPsh)) :: fixed)) := by
      unfold tcpGsoSegment
      dsimp only
      rw [if_neg (Nat.not_lt.2 hthlen), hpull]
      dsimp only
      rw [← hc, hadv.gsoSize, if_neg (by omega), hadv.gsoType, hsoft, hsegs]
      dsimp only
      rw [hfixed]
      rfl
    refine ⟨c, _, hadv, hrun, ?_, ?_⟩
    · rw [List.length_cons, hlength, ← hcount, List.length_cons]
    · intro i hi
      have hn : (s0.setFlags (s0.tcp.flagWord &&& ~~~(tcpFlagFin ||| tcpFlagPsh)) :: fixed).length = rest.length + 1 := by
        rw [List.length_cons, hlength]
      have hi' : i < (s0 :: rest).length := by
        rw [List.length_cons]
        omega
      obtain ⟨hcut, hbytes⟩ := hat i hi'
      refine ⟨_, hcut, hbytes, ?_⟩
      have htcp := hcut.tcp.trans hadv.tcp
      rw [hn]
      cases i with
      | zero =>
        rw [List.getElem_cons_zero] at htcp ⊢
        rw [List.getElem_cons_zero, segmentHeader_zero (by omega), GsoSkb.setFlags, htcp]
      | succ j =>
        have hseq : s0.tcp.seq = b.tcp.seq := by rw [(hcuts s0 (by simp)).tcp, hadv.tcp]
        rw [List.getElem_cons_succ] at htcp ⊢
        rw [List.getElem_cons_succ, hheaders j (by omega) (by omega), htcp, hseq, segmentHeader_succ]

/-- The segments of `b` behind the TCP headers, before `inet_gso_segment` renews the IP headers; `off` bytes of `b` are
headers. -/
structure TcpSegments (pages : Pages) (b : GsoSkb) (off : ℕ) (segs : List GsoSkb) : Prop where
  length : segs.length = (b.len - off + b.gsoSize.toNat - 1) / b.gsoSize.toNat
  cut : ∀ i (hi : i < segs.length), ∃ c s, Advanced pages off b c ∧ CutFrom c s ∧
    s.bytes pages = ((c.bytes pages).drop (i * b.gsoSize.toNat)).take b.gsoSize.toNat ∧
    segs[i] = { s with tcp := segmentHeader b.gsoSize.toNat segs.length i b.tcp }

theorem TcpSegments.segmentOf {pages : Pages} {off : ℕ} {segs : List GsoSkb} (h : TcpSegments pages b off segs) (i : ℕ)
    (hi : i < (fixIpHeaders b.doffset b.id segs).length) :
    SegmentOf pages b off (fixIpHeaders b.doffset b.id segs).length i (fixIpHeaders b.doffset b.id segs)[i] := by
  rw [fixIpHeaders_length] at hi ⊢
  obtain ⟨c, s, hadv, hcut, hbytes, hs⟩ := h.cut i hi
  rw [fixIpHeaders_getElem _ _ _ i hi, hs]
  have hoff : s.doffset + s.len - b.doffset = off + s.len := by
    rw [hcut.doffset, hadv.doffset]
    omega
  constructor
  · rw [hadv.bytes] at hbytes
    exact hbytes
  · rfl
  · show ({ s.ip with totLen := BitVec.ofNat 16 (s.doffset + s.len - b.doffset), badCsum := false } : IpHdr) = _
    rw [hoff, hcut.ip, hadv.ip]
    rfl
  · rfl
  · exact hcut.link.trans hadv.link
  · exact hcut.doffset.trans hadv.doffset
  · exact hcut.gsoSize
  · exact hcut.dataLen
  · exact hcut.within.trans hadv.within

theorem inetGsoSegment_ok (pages : Pages) {features : Features} (hb : b.Valid) (htype : b.gsoType &&& ~~~inetGsoTypes = 0)
    (hihl : 20 ≤ ihlBytes b.ip) (hthlen : 20 ≤ b.tcp.thlen) (hsize : 0 < b.gsoSize.toNat)
    (hlen : ihlBytes b.ip + b.tcp.thlen + b.gsoSize.toNat < b.len)
    (hsoft : netGsoOk (features.gso ||| skbGsoDodgy) b.gsoType = false) :
    ∃ segs, inetGsoSegment pages features b = .ok (.inr (fixIpHeaders b.doffset b.id segs)) ∧
      TcpSegments pages b (ihlBytes b.ip + b.tcp.thlen) segs := by
  obtain ⟨b1, hpull1, hadv1, -⟩ := mayPull_ok pages hb (n := 20) (by omega)
  have hlen1 := hadv1.len_eq hb
  obtain ⟨b2, hpull2, hadv2⟩ := mayPull_pull pages hadv1.valid (n := ihlBytes b1.ip) (by rw [hadv1.ip]; omega)
  have hadv3 := hadv1.trans hadv2
  rw [Nat.zero_add, hadv1.ip] at hadv3
  have hlen3 := hadv3.len_eq hb
  obtain ⟨b4, hpull4, hadv4, -⟩ := mayPull_ok pages hadv3.valid (n := 20) (by omega)
  have hadv5 := hadv3.trans hadv4
  rw [Nat.add_zero] at hadv5
  have hlen5 := hadv5.len_eq hb
  obtain ⟨c, segs, hadv6, hrun, hcount, hat⟩ := tcpGsoSegment_cut pages hadv5.valid
    (by rw [hadv5.tcp]; exact hthlen) (by rw [hadv5.gsoSize]; exact hsize)
    (by rw [hadv5.tcp, hadv5.gsoSize]; omega) (by rw [hadv5.gsoType]; exact hsoft)
  have hadv := hadv5.trans hadv6
  rw [hadv5.gsoSize] at hcount hat
  rw [hadv5.tcp] at hat hadv
  refine ⟨segs, ?_, ?_, ?_⟩
  · unfold inetGsoSegment
    dsimp only
    rw [htype, if_neg (by simp), hpull1]
    dsimp only
    rw [hadv1.ip, if_neg (Nat.not_lt.2 hihl)]
    rw [hadv1.ip] at hpull2
    rw [hpull2]
    dsimp only
    have hid : b2.id = b.id := hadv2.id.trans hadv1.id
    have htcp4 : tcp4GsoSegment pages features (b2.pull (ihlBytes b.ip)) = .ok (.inr segs) := by
      rw [tcp4GsoSegment, hpull4]
      exact hrun
    rw [htcp4, ← hid]
  · rw [hcount, length_pieces, hadv.valid.bytes_length, hadv.len_eq hb]
  · intro i hi
    obtain ⟨s, hcut, hbytes, hs⟩ := hat i hi
    exact ⟨c, s, hadv, hcut, hbytes, hs⟩

/-- **A buffer is cut into the segments it describes.** -/
theorem inetGsoSegment_cut (pages : Pages) {features : Features} (hb : b.Valid) (htype : b.gsoType &&& ~~~inetGsoTypes = 0)
    (hihl : 20 ≤ ihlBytes b.ip) (hthlen : 20 ≤ b.tcp.thlen) (hsize : 0 < b.gsoSize.toNat)
    (hlen : ihlBytes b.ip + b.tcp.thlen + b.gsoSize.toNat < b.len)
    (hsoft : netGsoOk (features.gso ||| skbGsoDodgy) b.gsoType = false) :
    ∃ segs, inetGsoSegment pages features b = .ok (.inr segs) ∧
      segs.length = (b.len - (ihlBytes b.ip + b.tcp.thlen) + b.gsoSize.toNat - 1) / b.gsoSize.toNat ∧
      ∀ i (hi : i < segs.length), SegmentOf pages b (ihlBytes b.ip + b.tcp.thlen) segs.length i segs[i] := by
  obtain ⟨segs, hrun, hsegs⟩ := inetGsoSegment_ok pages hb htype hihl hthlen hsize hlen hsoft
  exact ⟨_, hrun, by rw [fixIpHeaders_length, hsegs.length], hsegs.segmentOf⟩

/-- 45 bytes of headers and payload in the linear part and 20 bytes in two fragments, to be cut into segments of 10. -/
def gsoOfThree : GsoSkb where
  link := default
  ip := ⟨0x45, 0, 65, ipDf, 64, ipprotoTcp, 1, 0, false⟩
  id := 7
  tcp := ⟨7, 100, 0, 0x50000000 ||| tcpFlagAck ||| tcpFlagPsh ||| tcpFlagCwr, []⟩
  doffset := 14
  linear := List.replicate 45 0
  dataLen := 20
  frags := [⟨0, 0, 8⟩, ⟨1, 0, 12⟩]
  gsoSize := 10
  gsoSegs := 3
  gsoType := skbGsoTcpv4

theorem inetGsoSegment_cut_three :
    ∃ segs, inetGsoSegment (fun _ _ => 0) ⟨true, 0⟩ gsoOfThree = .ok (.inr segs) ∧ segs.length = 3 ∧
      ∀ i (hi : i < segs.length), SegmentOf (fun _ _ => 0) gsoOfThree 40 segs.length i segs[i] :=
  inetGsoSegment_cut _ ⟨rfl, by decide⟩ (by decide) (by decide) (by decide) (by decide) (by decide) (by decide)

/-- A device that segments itself is told how many segments that makes. -/
theorem tcpGsoSegment_offloaded {features : Features} (hb : b.Valid) (hthlen : 20 ≤ b.tcp.thlen)
    (hlen : b.tcp.thlen + b.gsoSize.toNat < b.len) (htype : b.gsoType &&& ~~~tcpGsoTypes = 0)
    (htcp : b.gsoType &&& (skbGsoTcpv4 ||| skbGsoTcpv6) ≠ 0)
    (hhard : netGsoOk (features.gso ||| skbGsoDodgy) b.gsoType = true) :
    ∃ c, tcpGsoSegment pages features b = .ok (.inl c) ∧
      c.gsoSegs = BitVec.ofNat 16 (pieces b.gsoSize.toNat (c.bytes pages)).length := by
  obtain ⟨b', hpull, hadv⟩ := mayPull_pull pages hb (n := b.tcp.thlen) (by omega)
  have hclen := hadv.len_eq hb
  refine ⟨{ b'.pull b.tcp.thlen with
    gsoSegs := BitVec.ofNat 16 (((b'.pull b.tcp.thlen).len + b.gsoSize.toNat - 1) / b.gsoSize.toNat) }, ?_, ?_⟩
  · unfold tcpGsoSegment
    dsimp only
    rw [if_neg (Nat.not_lt.2 hthlen), hpull]
    dsimp only
    rw [hadv.gsoSize, if_neg (by omega), hadv.gsoType, hhard, if_pos rfl, if_neg (by simpa [htype] using htcp)]
  · rw [length_pieces, ← hadv.valid.bytes_length pages]
    rfl

end PacketReordering.Linux41
