import RutosSdk.Hal.Configuration

/-! # What configuration calls establish

The functions that use the context assume that its values are in range. Some calls check what they
store only in part: the sums of the frequency check are of 32 bits, a bandwidth that is not given is
checked as 125 kHz and stored as 250 kHz, and the size of the sync word, the number of channels of
the SX1261 and the RF chain of a gain table are not checked at all.
-/

namespace RutosSdk.Hal

open List hiding Vector
open CheckedCopy Writes

/-! ## A context in range -/

/-- The channel bandwidth of an IF chain. -/
def ConfContext.bandwidthHz (context : ConfContext) (i : ℕ) : ℤ :=
  match ifmodConfig (BitVec.ofNat 8 i) with
  | .loraStd => channelBandwidth context.lora_service_cfg.bandwidth
  | .fskStd => channelBandwidth context.fsk_cfg.bandwidth
  | _ => 125000

/-- An IF chain is within the bandwidth of one of the radios. -/
structure ChainRight (chain : RxifConf) (bandwidth : ℤ) : Prop where
  rf_chain : chain.rf_chain.toNat < rfChainNb
  freq_hz : |chain.freq_hz.toInt| + bandwidth / 2 ≤ 800000

/-- A gain table has entries, all within their ranges. -/
structure TableRight (table : LgwTxGainLut) : Prop where
  pos : 1 ≤ table.size.toNat
  le : table.size.toNat ≤ txGainLutSizeMax
  gains : ∀ i < table.size.toNat, gainInRange (table.lut i) = true

/-- The sync word has one to eight bytes. -/
def SyncSizeRight (size : Byte) : Prop := 1 ≤ size.toNat ∧ size.toNat ≤ 8

instance (size : Byte) : Decidable (SyncSizeRight size) := inferInstanceAs (Decidable (_ ∧ _))

/-- `LGW_LBT_CHANNEL_NB_MAX` -/
abbrev lbtChannelNbMax : ℕ := 16

/-- The context is in range. -/
structure ConfContext.Right (context : ConfContext) : Prop where
  chains : ∀ i < ifChainNb, (context.ifChain i).enable = true →
    ChainRight (context.ifChain i) (context.bandwidthHz i)
  sync : SyncSizeRight context.fsk_cfg.sync_word_size
  tables : ∀ i < rfChainNb, TableRight (context.tx_gain_lut i)
  channels : context.sx1261_cfg.lbt_conf.nb_channel.toNat ≤ lbtChannelNbMax

theorem right_initial : ConfContext.initial.Right where
  chains := by
    intro i hi henable
    have hdisabled : ∀ i < ifChainNb, (ConfContext.initial.ifChain i).enable = false := by decide
    rw [hdisabled i hi] at henable
    cases henable
  sync := ⟨by decide, by decide⟩
  tables := by
    intro i _
    have htable : TableRight initialGainLut := ⟨by decide, by decide, by decide⟩
    exact htable
  channels := by decide

/-! ## Indices -/

/-- The arrays of the context that are indexed by a configuration call. -/
inductive ContextArray where
  | rfChainCfg
  | ifChainCfg
  | txGainLut
  | lut
  | channels
deriving DecidableEq, Repr

/-- The number of elements. -/
def ContextArray.size : ContextArray → ℕ
  | .rfChainCfg => rfChainNb
  | .ifChainCfg => ifChainNb
  | .txGainLut => rfChainNb
  | .lut => txGainLutSizeMax
  | .channels => lbtChannelNbMax

/-- The elements that a call uses. -/
def ConfCall.indices (context : ConfContext) : ConfCall → List (ContextArray × ℕ)
  | .rxrf rf_chain (some conf) =>
    if (lgwRxrfSetconf rf_chain (some conf) context).1 && conf.enable then
      [(.rfChainCfg, rf_chain.toNat)]
    else []
  | .rxif if_chain conf =>
    if (lgwRxifSetconf if_chain conf context).1 then [(.ifChainCfg, if_chain.toNat)] else []
  | .txgain rf_chain (some conf) =>
    if conf.size.toNat < 1 ∨ txGainLutSizeMax < conf.size.toNat then []
    else
      (.txGainLut, rf_chain.toNat)
        :: (List.range (okCount gainInRange conf.lut conf.size.toNat)).map (.lut, ·)
  | .sx1261 (some conf) => (List.range conf.lbt_conf.copiedChannels).map (.channels, ·)
  | _ => []

/-- No element outside its array is used. -/
def ConfCall.InBounds (context : ConfContext) (call : ConfCall) : Prop :=
  ∀ use ∈ call.indices context, use.2 < use.1.size

/-- The arguments that are used as indices without a check are in range. -/
def ConfCall.IndexMeets : ConfCall → Prop
  | .txgain rf_chain (some conf) =>
    1 ≤ conf.size.toNat → conf.size.toNat ≤ txGainLutSizeMax → rf_chain.toNat < rfChainNb
  | .sx1261 (some conf) => conf.lbt_conf.copiedChannels ≤ lbtChannelNbMax
  | _ => True

variable {context : ConfContext}

variable {rf_chain : Byte} {i : ℕ}

theorem rf_chain_lt_of_rxrf {conf : RxrfConf}
    (h : (lgwRxrfSetconf rf_chain (some conf) context).1 = true) (henable : conf.enable = true) :
    rf_chain.toNat < rfChainNb := by
  unfold lgwRxrfSetconf at h
  dsimp only at h
  split_ifs at h with _ hdisabled hchain
  · rw [henable] at hdisabled
    cases hdisabled
  · exact Nat.lt_of_not_le hchain

theorem if_chain_lt_of_rxif {if_chain : Byte} {conf : Option RxifConf}
    (h : (lgwRxifSetconf if_chain conf context).1 = true) : if_chain.toNat < ifChainNb := by
  unfold lgwRxifSetconf at h
  split at h
  · cases h
  · split_ifs at h with _ hchain
    all_goals exact Nat.lt_of_not_le hchain

theorem inBounds_txgain_iff {conf : LgwTxGainLut} :
    (ConfCall.txgain rf_chain (some conf)).InBounds context
      ↔ (1 ≤ conf.size.toNat → conf.size.toNat ≤ txGainLutSizeMax →
        rf_chain.toNat < rfChainNb) := by
  unfold ConfCall.InBounds ConfCall.indices
  dsimp only
  split_ifs with hsize
  · refine iff_of_true (fun _ h => absurd h (not_mem_nil)) ?_
    omega
  · have hlut : ∀ use ∈ (List.range (okCount gainInRange conf.lut conf.size.toNat)).map
        (ContextArray.lut, ·), use.2 < use.1.size := by
      intro use huse
      obtain ⟨i, hi, rfl⟩ := mem_map.mp huse
      have hle := @okCount_le _ gainInRange conf.lut conf.size.toNat
      have hi' := mem_range.mp hi
      show i < txGainLutSizeMax
      omega
    rw [forall_mem_cons]
    constructor
    · exact fun h _ _ => h.1
    · exact fun h => ⟨h (by omega) (by omega), hlut⟩

theorem inBounds_sx1261_iff {conf : LgwConfSx1261} :
    (ConfCall.sx1261 (some conf)).InBounds context
      ↔ conf.lbt_conf.copiedChannels ≤ lbtChannelNbMax := by
  unfold ConfCall.InBounds ConfCall.indices
  constructor
  · intro h
    by_contra hlt
    have hmem := h (.channels, lbtChannelNbMax)
      (mem_map.mpr ⟨_, mem_range.mpr (Nat.lt_of_not_le hlt), rfl⟩)
    exact absurd hmem (Nat.lt_irrefl _)
  · intro h use huse
    obtain ⟨i, hi, rfl⟩ := mem_map.mp huse
    exact (mem_range.mp hi).trans_le h

/-- Whether a call stays within the arrays is decided by its arguments. -/
theorem inBounds_iff {call : ConfCall} : call.InBounds context ↔ call.IndexMeets := by
  cases call with
  | board conf => exact iff_of_true (fun _ h => absurd h not_mem_nil) trivial
  | rxrf rf_chain conf =>
    cases conf with
    | none => exact iff_of_true (fun _ h => absurd h not_mem_nil) trivial
    | some conf =>
      refine iff_of_true (fun use huse => ?_) trivial
      unfold ConfCall.indices at huse
      dsimp only at huse
      split_ifs at huse with hsuccess
      · rw [Bool.and_eq_true] at hsuccess
        rw [mem_singleton.mp huse]
        exact rf_chain_lt_of_rxrf hsuccess.1 hsuccess.2
      · exact absurd huse not_mem_nil
  | rxif if_chain conf =>
    refine iff_of_true (fun use huse => ?_) trivial
    unfold ConfCall.indices at huse
    dsimp only at huse
    split_ifs at huse with hsuccess
    · rw [mem_singleton.mp huse]
      exact if_chain_lt_of_rxif hsuccess
    · exact absurd huse not_mem_nil
  | txgain rf_chain conf =>
    cases conf with
    | none => exact iff_of_true (fun _ h => absurd h not_mem_nil) trivial
    | some conf => exact inBounds_txgain_iff
  | sx1261 conf =>
    cases conf with
    | none => exact iff_of_true (fun _ h => absurd h not_mem_nil) trivial
    | some conf => exact inBounds_sx1261_iff

/-! ## IF chains -/

variable {if_chain : Byte} {conf : RxifConf}

/-- The half of a channel bandwidth. -/
theorem channelBandwidth_half (bandwidth : Byte) :
    62500 ≤ channelBandwidth bandwidth / 2 ∧ channelBandwidth bandwidth / 2 ≤ 250000 := by
  unfold channelBandwidth lgwBwGetval
  split_ifs <;> omega

@[simp] theorem rfRxBandwidth_eq (bandwidth : Byte) : rfRxBandwidth bandwidth = 1600000 := by
  unfold rfRxBandwidth
  split_ifs <;> rfl

/-- The sums of the frequency check are within 32 bits. -/
def NoOverflow (conf : RxifConf) : Prop :=
  conf.freq_hz.toInt + channelBandwidth conf.bandwidth / 2 < 2147483648
    ∧ -2147483648 ≤ conf.freq_hz.toInt - channelBandwidth conf.bandwidth / 2

/-- Without an overflow, the check bounds the frequency for the bandwidth that is given. -/
theorem abs_freq_le (hcheck : ifFreqRefused conf = false) (hover : NoOverflow conf) :
    |conf.freq_hz.toInt| + channelBandwidth conf.bandwidth / 2 ≤ 800000 := by
  obtain ⟨hhigh, hlow⟩ := hover
  obtain ⟨hpos, hle⟩ := channelBandwidth_half conf.bandwidth
  simp only [ifFreqRefused, rfRxBandwidth_eq, Bool.or_eq_false_iff, decide_eq_false_iff_not]
    at hcheck
  rw [int32_eq (by omega) (by omega), int32_eq (by omega) (by omega)] at hcheck
  have habs : |conf.freq_hz.toInt| ≤ 800000 - channelBandwidth conf.bandwidth / 2 :=
    abs_le.mpr ⟨by omega, by omega⟩
  omega

/-- The bandwidth that is stored for a chain. -/
def storedBandwidth (if_chain bandwidth : Byte) : Byte :=
  if bandwidth = bwUndefined then
    if ifmodConfig if_chain = .loraMulti then bw125Khz else bw250Khz
  else bandwidth

/-- What a configuration of an IF chain that is enabled changes. -/
structure Committed (if_chain : Byte) (conf : RxifConf) (before after : ConfContext) :
    Prop where
  enable : (after.ifChain if_chain.toNat).enable = conf.enable
  rf_chain : (after.ifChain if_chain.toNat).rf_chain = conf.rf_chain
  freq_hz : (after.ifChain if_chain.toNat).freq_hz = conf.freq_hz
  bandwidth : after.bandwidthHz if_chain.toNat
    = channelBandwidth (storedBandwidth if_chain conf.bandwidth)
  chains : ∀ i < ifChainNb, i ≠ if_chain.toNat →
    after.ifChain i = before.ifChain i ∧ after.bandwidthHz i = before.bandwidthHz i
  sync : after.fsk_cfg.sync_word_size
    = if ifmodConfig if_chain = .fskStd ∧ 0 < conf.sync_word then conf.sync_word_size
      else before.fsk_cfg.sync_word_size
  tables : after.tx_gain_lut = before.tx_gain_lut
  sx1261 : after.sx1261_cfg = before.sx1261_cfg

theorem ifChain_setIfChain_self (hi : if_chain.toNat < ifChainNb) :
    let chain := (context.setIfChain if_chain conf).ifChain if_chain.toNat
    chain.enable = conf.enable ∧ chain.rf_chain = conf.rf_chain ∧ chain.freq_hz = conf.freq_hz := by
  simp only [ConfContext.setIfChain, ConfContext.ifChain]
  rw [Vector.getElem?_setIfInBounds_self_of_lt hi]
  exact ⟨rfl, rfl, rfl⟩

theorem ifChain_setIfChain_of_ne (hi : i ≠ if_chain.toNat) :
    (context.setIfChain if_chain conf).ifChain i = context.ifChain i := by
  simp only [ConfContext.setIfChain, ConfContext.ifChain]
  rw [Vector.getElem?_setIfInBounds_ne hi.symm]

theorem ifmodConfig_eq_loraStd_iff : ifmodConfig if_chain = .loraStd ↔ if_chain.toNat = 8 := by
  revert if_chain
  decide

theorem ifmodConfig_eq_fskStd_iff : ifmodConfig if_chain = .fskStd ↔ if_chain.toNat = 9 := by
  revert if_chain
  decide

theorem bandwidthHz_toNat (context : ConfContext) (if_chain : Byte) :
    context.bandwidthHz if_chain.toNat
      = match ifmodConfig if_chain with
        | .loraStd => channelBandwidth context.lora_service_cfg.bandwidth
        | .fskStd => channelBandwidth context.fsk_cfg.bandwidth
        | _ => 125000 := by
  rw [ConfContext.bandwidthHz, BitVec.ofNat_toNat, BitVec.setWidth_eq]

theorem bandwidthHz_setLoraService (hi : i < ifChainNb) (hne : i ≠ 8) :
    (context.setLoraService conf).bandwidthHz i = context.bandwidthHz i := by
  have hmod : ifmodConfig (BitVec.ofNat 8 i) ≠ .loraStd := by
    rw [Ne, ifmodConfig_eq_loraStd_iff, BitVec.toNat_ofNat, Nat.mod_eq_of_lt (hi.trans (by decide))]
    exact hne
  unfold ConfContext.bandwidthHz
  split
  · rename_i h
    exact absurd h hmod
  · rfl
  · rfl

theorem bandwidthHz_setFsk (hi : i < ifChainNb) (hne : i ≠ 9) :
    (context.setFsk conf).bandwidthHz i = context.bandwidthHz i := by
  have hmod : ifmodConfig (BitVec.ofNat 8 i) ≠ .fskStd := by
    rw [Ne, ifmodConfig_eq_fskStd_iff, BitVec.toNat_ofNat, Nat.mod_eq_of_lt (hi.trans (by decide))]
    exact hne
  unfold ConfContext.bandwidthHz
  split
  · rfl
  · rename_i h
    exact absurd h hmod
  · rfl

theorem storedBandwidth_of_ne {bandwidth : Byte} (h : ifmodConfig if_chain ≠ .loraMulti) :
    storedBandwidth if_chain bandwidth
      = if bandwidth = bwUndefined then bw250Khz else bandwidth := by
  rw [storedBandwidth, if_neg h]

theorem storedBandwidth_of_loraMulti {bandwidth : Byte} (h : ifmodConfig if_chain = .loraMulti) :
    storedBandwidth if_chain bandwidth
      = if bandwidth = bwUndefined then bw125Khz else bandwidth := by
  rw [storedBandwidth, if_pos h]

theorem committed_loraStd (hmod : ifmodConfig if_chain = .loraStd) (hi : if_chain.toNat < ifChainNb)
    (datarate : Word) :
    Committed if_chain conf context
      ((context.setIfChain if_chain (conf.filled bw250Khz datarate)).setLoraService
        (conf.filled bw250Khz datarate)) := by
  obtain ⟨henable, hrf, hfreq⟩ :=
    @ifChain_setIfChain_self context if_chain (conf.filled bw250Khz datarate) hi
  refine
    ⟨henable, hrf, hfreq, ?_, fun i hi' hne => ⟨ifChain_setIfChain_of_ne hne, ?_⟩, ?_, rfl, rfl⟩
  · rw [bandwidthHz_toNat, hmod, storedBandwidth_of_ne (by rw [hmod]; decide)]
    rfl
  · exact bandwidthHz_setLoraService hi' (ifmodConfig_eq_loraStd_iff.mp hmod ▸ hne)
  · rw [hmod, if_neg (by simp)]
    rfl

theorem committed_loraMulti (hmod : ifmodConfig if_chain = .loraMulti)
    (hi : if_chain.toNat < ifChainNb) (datarate : Word)
    (hbandwidth : (conf.filled bw125Khz datarate).bandwidth = bw125Khz) :
    Committed if_chain conf context
      (context.setIfChain if_chain (conf.filled bw125Khz datarate)) := by
  obtain ⟨henable, hrf, hfreq⟩ :=
    @ifChain_setIfChain_self context if_chain (conf.filled bw125Khz datarate) hi
  refine ⟨henable, hrf, hfreq, ?_, fun i _ hne => ⟨ifChain_setIfChain_of_ne hne, rfl⟩, ?_, rfl, rfl⟩
  · have hstored : storedBandwidth if_chain conf.bandwidth = bw125Khz := by
      rw [storedBandwidth_of_loraMulti hmod]
      exact hbandwidth
    rw [bandwidthHz_toNat, hmod, hstored]
    rfl
  · rw [hmod, if_neg (by simp)]
    rfl

theorem committed_fskStd (hmod : ifmodConfig if_chain = .fskStd) (hi : if_chain.toNat < ifChainNb)
    (datarate : Word) :
    Committed if_chain conf context
      ((context.setIfChain if_chain (conf.filled bw250Khz datarate)).setFsk
        (conf.filled bw250Khz datarate)) := by
  obtain ⟨henable, hrf, hfreq⟩ :=
    @ifChain_setIfChain_self context if_chain (conf.filled bw250Khz datarate) hi
  refine
    ⟨henable, hrf, hfreq, ?_, fun i hi' hne => ⟨ifChain_setIfChain_of_ne hne, ?_⟩, ?_, rfl, rfl⟩
  · rw [bandwidthHz_toNat, hmod, storedBandwidth_of_ne (by rw [hmod]; decide)]
    rfl
  · exact bandwidthHz_setFsk hi' (ifmodConfig_eq_fskStd_iff.mp hmod ▸ hne)
  · simp only [hmod, true_and]
    rfl

/-- A chain that is accepted is committed with the bandwidth filled in. -/
theorem committed_commitIfChain (hi : if_chain.toNat < ifChainNb)
    (h : (commitIfChain if_chain conf context).1 = true) :
    Committed if_chain conf context (commitIfChain if_chain conf context).2 := by
  unfold commitIfChain at h ⊢
  cases hmod : ifmodConfig if_chain with
  | undefined =>
    rw [hmod] at h
    cases h
  | loraStd =>
    rw [hmod] at h
    dsimp only at h ⊢
    split_ifs at h ⊢
    exact committed_loraStd hmod hi 7
  | loraMulti =>
    rw [hmod] at h
    dsimp only at h ⊢
    split_ifs at h ⊢ with hrefused
    rw [Bool.not_eq_true, Bool.or_eq_false_iff, bne_eq_false_iff_eq] at hrefused
    exact committed_loraMulti hmod hi 7 hrefused.1
  | fskStd =>
    rw [hmod] at h
    dsimp only at h ⊢
    split_ifs at h ⊢
    exact committed_fskStd hmod hi 64000

/-- The arguments of a chain that is enabled meet what is not checked. -/
structure ChainMeets (if_chain : Byte) (conf : RxifConf) : Prop where
  freq_hz : NoOverflow conf
  bandwidth : ifmodConfig if_chain ≠ .loraMulti → conf.bandwidth = bwUndefined →
    |conf.freq_hz.toInt| ≤ 675000
  sync : ifmodConfig if_chain = .fskStd → 0 < conf.sync_word → SyncSizeRight conf.sync_word_size

theorem channelBandwidth_storedBandwidth (if_chain bandwidth : Byte) :
    channelBandwidth (storedBandwidth if_chain bandwidth)
      = if bandwidth = bwUndefined ∧ ifmodConfig if_chain ≠ .loraMulti then 250000
        else channelBandwidth bandwidth := by
  unfold storedBandwidth
  split_ifs with hundefined hmod hboth hboth
  · exact absurd hmod hboth.2
  · rw [hundefined]
    rfl
  · rfl
  · exact absurd ⟨hundefined, hmod⟩ hboth
  · rename_i hboth
    exact absurd hboth.1 hundefined
  · rfl

/-- A chain that passes the checks is within the radio bandwidth exactly if its arguments meet what
is not checked. -/
theorem freq_le_iff (hcheck : ifFreqRefused conf = false) :
    |conf.freq_hz.toInt| + channelBandwidth (storedBandwidth if_chain conf.bandwidth) / 2 ≤ 800000
      ↔ NoOverflow conf ∧ (ifmodConfig if_chain ≠ .loraMulti → conf.bandwidth = bwUndefined →
        |conf.freq_hz.toInt| ≤ 675000) := by
  obtain ⟨hpos, hle⟩ := channelBandwidth_half conf.bandwidth
  have habs := neg_abs_le conf.freq_hz.toInt
  have habs' := le_abs_self conf.freq_hz.toInt
  rw [channelBandwidth_storedBandwidth]
  split_ifs with hdefault
  · constructor
    · intro h
      exact ⟨⟨by omega, by omega⟩, fun _ _ => by omega⟩
    · intro h
      have := h.2 hdefault.2 hdefault.1
      omega
  · constructor
    · intro h
      refine ⟨⟨by omega, by omega⟩, fun hmod hundefined => absurd ⟨hundefined, hmod⟩ hdefault⟩
    · intro h
      exact abs_freq_le hcheck h.1

/-- After a commit the context is in range exactly if the arguments meet what is not checked. -/
theorem Committed.right_iff {after : ConfContext} (h : Committed if_chain conf context after)
    (hright : context.Right) (henable : conf.enable = true)
    (hi : if_chain.toNat < ifChainNb) (hrf : conf.rf_chain.toNat < rfChainNb)
    (hcheck : ifFreqRefused conf = false) : after.Right ↔ ChainMeets if_chain conf := by
  constructor
  · intro hafter
    have hchain := (hafter.chains _ hi (h.enable.trans henable)).freq_hz
    rw [h.freq_hz, h.bandwidth, freq_le_iff hcheck] at hchain
    refine ⟨hchain.1, hchain.2, fun hmod hsync => ?_⟩
    have hsize := hafter.sync
    rwa [h.sync, if_pos ⟨hmod, hsync⟩] at hsize
  · intro hmeets
    refine ⟨fun i hi' hen => ?_, ?_, ?_, ?_⟩
    · by_cases hne : i = if_chain.toNat
      · subst hne
        refine ⟨h.rf_chain ▸ hrf, ?_⟩
        rw [h.freq_hz, h.bandwidth, freq_le_iff hcheck]
        exact ⟨hmeets.freq_hz, hmeets.bandwidth⟩
      · obtain ⟨hsame, hbandwidth⟩ := h.chains i hi' hne
        rw [hsame] at hen ⊢
        rw [hbandwidth]
        exact hright.chains i hi' hen
    · rw [h.sync]
      split_ifs with hsync
      · exact hmeets.sync hsync.1 hsync.2
      · exact hright.sync
    · rw [h.tables]
      exact hright.tables
    · rw [h.sx1261]
      exact hright.channels

/-- A chain that is disabled leaves the context in range. -/
theorem right_disabled (hright : context.Right) (chain : RxifConf) (hchain : chain.enable = false) :
    { context with
      if_chain_cfg := context.if_chain_cfg.setIfInBounds i chain }.Right := by
  refine ⟨fun j hj hen => ?_, hright.sync, hright.tables, hright.channels⟩
  by_cases hij : i = j
  · subst hij
    simp only [ConfContext.ifChain, Vector.getElem?_setIfInBounds_self_of_lt hj] at hen
    rw [Option.getD_some, hchain] at hen
    cases hen
  · have hsame : { context with
        if_chain_cfg := context.if_chain_cfg.setIfInBounds i chain }.ifChain j
          = context.ifChain j := by
      simp only [ConfContext.ifChain, Vector.getElem?_setIfInBounds_ne hij]
    rw [hsame] at hen ⊢
    exact hright.chains j hj hen

theorem right_rxif_iff (hright : context.Right)
    (h : (lgwRxifSetconf if_chain (some conf) context).1 = true) :
    (lgwRxifSetconf if_chain (some conf) context).2.Right
      ↔ (conf.enable = true → ChainMeets if_chain conf) := by
  have hi := if_chain_lt_of_rxif h
  unfold lgwRxifSetconf at h ⊢
  dsimp only at h ⊢
  split_ifs at h ⊢ with _ _ hdisabled hrf hcheck
  · have hfalse : conf.enable = false := by simpa using hdisabled
    refine iff_of_true (right_disabled hright _ rfl) fun henable => ?_
    rw [hfalse] at henable
    cases henable
  · have henable : conf.enable = true := by simpa using hdisabled
    rw [(committed_commitIfChain hi h).right_iff hright henable hi (Nat.lt_of_not_le hrf)
      (Bool.eq_false_iff.mpr hcheck)]
    exact ⟨fun hmeets _ => hmeets, fun hmeets => hmeets henable⟩

/-! ## All calls -/

/-- The arguments of a call meet what is not checked. -/
def ConfCall.Meets : ConfCall → Prop
  | .rxif if_chain (some conf) => conf.enable = true → ChainMeets if_chain conf
  | .txgain rf_chain (some _) => rf_chain.toNat < rfChainNb
  | .sx1261 (some conf) => conf.lbt_conf.nb_channel.toNat ≤ lbtChannelNbMax
  | _ => True

theorem right_board (hright : context.Right) (conf : Option LgwConfBoard) :
    (lgwBoardSetconf conf context).2.Right := by
  unfold lgwBoardSetconf
  split
  · exact hright
  · split_ifs
    · exact hright
    · exact hright
    · exact ⟨hright.chains, hright.sync, hright.tables, hright.channels⟩

theorem right_rxrf (hright : context.Right) (rf_chain : Byte) (conf : Option RxrfConf) :
    (lgwRxrfSetconf rf_chain conf context).2.Right := by
  unfold lgwRxrfSetconf
  split
  · exact hright
  · split_ifs
    all_goals first
      | exact hright
      | exact ⟨hright.chains, hright.sync, hright.tables, hright.channels⟩

/-- An accepted table is in range. -/
theorem tableRight_of_success {table conf : LgwTxGainLut}
    (h : (lgwTxgainSetconf table conf).1 = true) :
    (1 ≤ conf.size.toNat ∧ conf.size.toNat ≤ txGainLutSizeMax)
      ∧ TableRight (lgwTxgainSetconf table conf).2 := by
  by_cases hsize : conf.size.toNat < 1 ∨ txGainLutSizeMax < conf.size.toNat
  · rw [lgwTxgainSetconf, if_pos hsize] at h
    cases h
  · have hlow : 1 ≤ conf.size.toNat := by omega
    have hhigh : conf.size.toNat ≤ txGainLutSizeMax := by omega
    rw [lgwTxgainSetconf_eq hlow hhigh] at h ⊢
    have hall := of_decide_eq_true h
    refine ⟨⟨hlow, hhigh⟩, hlow, hhigh, fun i hi => ?_⟩
    have hok : gainInRange (conf.lut i) = true := okCount_eq_iff.mp hall i hi
    have hentry :
        copied contextGain conf.lut table.lut conf.size.toNat i = contextGain (conf.lut i) :=
      if_pos hi
    rw [hall]
    exact (congrArg gainInRange hentry).trans hok

theorem right_txgain (hright : context.Right) {conf : LgwTxGainLut}
    (h : (lgwTxgainSetconfChain rf_chain (some conf) context).1 = true) :
    (lgwTxgainSetconfChain rf_chain (some conf) context).2.Right := by
  rw [lgwTxgainSetconfChain_eq] at h ⊢
  refine ⟨hright.chains, hright.sync, fun i hi => ?_, hright.channels⟩
  by_cases hchain : i = rf_chain.toNat
  · subst hchain
    dsimp only
    rw [Function.update_self]
    exact (tableRight_of_success h).2
  · dsimp only
    rw [Function.update_of_ne hchain]
    exact hright.tables i hi

/-- A call that succeeds keeps the context in range and its indices within the arrays exactly if its
arguments meet what is not checked. -/
theorem right_exec_iff {call : ConfCall} (hright : context.Right)
    (h : (call.exec context).1 = true) :
    (call.exec context).2.Right ∧ call.InBounds context ↔ call.Meets := by
  rw [inBounds_iff]
  cases call with
  | board conf => exact iff_of_true ⟨right_board hright conf, trivial⟩ trivial
  | rxrf rf_chain conf => exact iff_of_true ⟨right_rxrf hright rf_chain conf, trivial⟩ trivial
  | rxif if_chain conf =>
    cases conf with
    | none => cases h
    | some conf => exact (and_iff_left trivial).trans (right_rxif_iff hright h)
  | txgain rf_chain conf =>
    cases conf with
    | none => cases h
    | some conf =>
      obtain ⟨hlow, hhigh⟩ := (tableRight_of_success h).1
      refine (and_iff_right (right_txgain hright h)).trans ?_
      exact ⟨fun hmeets => hmeets hlow hhigh, fun hmeets _ _ => hmeets⟩
  | sx1261 conf =>
    cases conf with
    | none => cases h
    | some conf =>
      rw [ConfCall.exec, lgwSx1261Setconf_eq] at h ⊢
      have hall := of_decide_eq_true h
      constructor
      · exact fun hafter => hafter.1.channels
      · intro hmeets
        exact ⟨⟨hright.chains, hright.sync, hright.tables, hmeets⟩, hall.le.trans hmeets⟩

/-- In every sequence of successful calls, with any call made after it: all contexts are in range
and no call uses an element outside its array, if and only if the arguments meet what is not
checked. -/
theorem contexts_right_iff {calls : List ConfCall}
    (hsuccess : ∀ done call, done ++ [call] <+: calls →
      (call.exec (ConfContext.initial.after done)).1 = true) (last : ConfCall) :
    ((∀ done, done <+: calls → (ConfContext.initial.after done).Right)
        ∧ (∀ done call, done ++ [call] <+: calls → call.InBounds (ConfContext.initial.after done))
        ∧ last.InBounds (ConfContext.initial.after calls))
      ↔ (∀ call ∈ calls, call.Meets) ∧ last.IndexMeets := by
  rw [inBounds_iff, ← and_assoc]
  refine and_congr ?_ Iff.rfl
  constructor
  · intro ⟨hright, hindices⟩ call hcall
    obtain ⟨done, rest, rfl⟩ := append_of_mem hcall
    have hdone : done ++ [call] <+: done ++ call :: rest := ⟨rest, by simp⟩
    refine (right_exec_iff (hright done ⟨call :: rest, rfl⟩) (hsuccess done call hdone)).mp
      ⟨?_, hindices done call hdone⟩
    rw [← after_concat]
    exact hright _ hdone
  · intro hmeets
    -- the calls before keep the context in range, so each further one does
    have hright : ∀ done, done <+: calls → (ConfContext.initial.after done).Right := by
      intro done
      induction done using List.reverseRecOn with
      | nil => exact fun _ => right_initial
      | append_singleton done call ih =>
        intro hdone
        have hbefore := ih ((prefix_append done [call]).trans hdone)
        rw [after_concat]
        exact ((right_exec_iff hbefore (hsuccess done call hdone)).mpr
          (hmeets call (hdone.subset (by simp)))).1
    refine ⟨hright, fun done call hdone => ?_⟩
    have hbefore := hright done ((prefix_append done [call]).trans hdone)
    exact ((right_exec_iff hbefore (hsuccess done call hdone)).mpr
      (hmeets call (hdone.subset (by simp)))).2

/-- An IF chain at 125 kHz, the given frequency and the given sync word. -/
def chainConf (freq_hz : Word) (sync_word_size : Byte) (sync_word : BitVec 64) : RxifConf where
  rf_chain := 0
  freq_hz := freq_hz
  bandwidth := bw125Khz
  datarate := drUndefined
  sync_word_size := sync_word_size
  implicit_hdr := false
  implicit_crc_en := false
  implicit_coderate := 0
  enable := true
  sync_word := sync_word
  implicit_payload_length := 0

theorem contexts_right_chainConf :
    ((ConfCall.rxif 9 (some (chainConf 300000 3 0xC194C1))).exec .initial).1 = true
      ∧ (ConfContext.initial.after [.rxif 9 (some (chainConf 300000 3 0xC194C1))]).Right := by
  have hsuccess :
      ((ConfCall.rxif 9 (some (chainConf 300000 3 0xC194C1))).exec .initial).1 = true := by decide
  refine ⟨hsuccess, ((@contexts_right_iff [.rxif 9 (some (chainConf 300000 3 0xC194C1))] ?_
    (.board none)).mpr ⟨?_, trivial⟩).1 _ (prefix_refl _)⟩
  · intro done call hdone
    have hlength := hdone.length_le
    rw [length_append, length_singleton, length_singleton] at hlength
    obtain rfl := length_eq_zero_iff.mp (by omega : done.length = 0)
    obtain rfl := (cons_prefix_cons.mp hdone).1
    exact hsuccess
  · intro call hcall
    rw [mem_singleton.mp hcall]
    exact fun _ => ⟨⟨by decide, by decide⟩, fun _ h => absurd h (by decide), fun _ _ => by decide⟩

/-- The FSK chain at 300 kHz with a sync word of nine bytes, and a chain whose frequency check rolls
over: both are accepted. -/
theorem unchecked_arguments_accepted :
    ((ConfCall.rxif 9 (some (chainConf 300000 9 1))).exec .initial).1 = true
      ∧ ¬((ConfCall.rxif 9 (some (chainConf 300000 9 1))).exec .initial).2.Right
      ∧ ((ConfCall.rxif 0 (some (chainConf 0x7FFFFFFF 0 0))).exec .initial).1 = true
      ∧ ¬((ConfCall.rxif 0 (some (chainConf 0x7FFFFFFF 0 0))).exec .initial).2.Right := by
  refine ⟨by decide, fun h => ?_, by decide, fun h => ?_⟩
  · exact absurd h.sync (by decide)
  · exact absurd (h.chains 0 (by decide) (by decide)).freq_hz (by decide)

end RutosSdk.Hal
