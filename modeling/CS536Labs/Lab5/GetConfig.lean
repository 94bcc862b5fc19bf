import CS536Labs.Foundations.Tokens
import CS536Labs.Lab5.RequestCodec
import CS536Labs.Lab5.SendFeedback

/-!
# `get_config` of `lab5/lib/audio_client.c`

The arguments of the audio clients and their parameter file. `get_config` checks the name of the
file, the block size and the packet rate, and converts the sizes, the method and the gains without
a check.

* `SafeToRun`: what the clients compute from the configuration is defined, in a run that finds the
  queue in the states of a list.
* `InRange`: the numbers that are not checked are in their ranges, and so are the packet rates that
  they lead to.
* `safeToRun_iff`: the two agree for every configuration that is accepted, and every run.
-/

namespace CS536Labs.Lab5.AudioClient

/-- What the calls of the system return. -/
structure Env where
  buildAddrinfo : List UInt8 → List UInt8 → ℤ
  /-- The content of `audiocliparam.dat`, if it can be opened. -/
  parametersFile : Option (List UInt8)

/-- `REQUIRED_ARGC`. -/
def requiredArgc : ℕ := 10

/-- `FREAD_BUFFER_SIZE`. -/
def freadBufferSize : ℕ := 4096

/-- `BUFFER_UNIT_SIZE`. -/
def bufferUnitSize : ℕ := audioFrameSize

/-- The argument `argv[i]`. -/
def arg (argv : List (List UInt8)) (i : ℕ) : List UInt8 := argv.getD i []

def checkBlocksize (blocksize : ℕ) : ℤ := if blocksize < 1 ∨ blocksize > 65535 then -1 else 0

/-- `check_packets_per_second`. Both comparisons are false for a value that is no number. -/
def checkPacketsPerSecond (packetsPerSecond : LongDouble) : ℤ :=
  if packetsPerSecond.lt (.ofRat 0) || LongDouble.lt (.ofRat 1000) packetsPerSecond then -1 else 0

/-- The gains from the tokens of the parameter file. -/
def storeParameters (config : Config) : List (List UInt8) → Config
  | [] => config
  | [epsilon] => { config with epsilon := strtold epsilon }
  | [epsilon, beta] => { config with epsilon := strtold epsilon, beta := strtold beta }
  | epsilon :: beta :: alpha :: _ => { config with
      epsilon := strtold epsilon, beta := strtold beta, alpha := strtold alpha }

/-- The tokens of the string that is read from the file. -/
def parameterTokens (content : List UInt8) : List (List UInt8) :=
  tokens isBlank (cString (content.take freadBufferSize))

/-- `read_parameters_file`. -/
def readParametersFile (file : Option (List UInt8)) (config : Config) : ℤ × Config :=
  let config := { config with epsilon := .ofRat 0, beta := .ofRat 0, alpha := .ofRat 0 }
  match file with
  | none => (-1, config)
  | some content =>
    if content.take freadBufferSize = [] then (0, config)
    else (0, storeParameters config (parameterTokens content))

/-- `get_config`: the return value and `*config` behind the call. -/
def getConfig (env : Env) (argv : List (List UInt8)) (config : Config) : ℤ × Config :=
  if argv.length < requiredArgc then (-1, config)
  else if env.buildAddrinfo (arg argv 1) (arg argv 2) ≠ 0 then (-1, config)
  else
    let config := { config with audioFilename := arg argv 3 }
    if checkFilename config.audioFilename ≠ 0 then (-1, config)
    else
      let blocksize := strtoul0 (arg argv 4)
      if checkBlocksize blocksize ≠ 0 then (-1, config)
      else
        let config := { config with
          blocksize := UInt16.ofNat blocksize
          bufferSize := sizeMul (strtoul0 (arg argv 5)) bufferUnitSize
          targetBufferOccupancy := sizeMul (strtoul0 (arg argv 6)) bufferUnitSize }
        let packetsPerSecond := strtold (arg argv 7)
        if checkPacketsPerSecond packetsPerSecond ≠ 0 then (-1, config)
        else
          let config := { config with
            packetsPerSecond := packetsPerSecond
            congestionControlIndex := UInt16.ofNat (strtoul0 (arg argv 8))
            logFilename := arg argv 9 }
          let (status, config) := readParametersFile env.parametersFile config
          if status < 0 then (-1, config) else (0, config)

/-! ## What the clients compute -/

/-- The queue that `main` builds in `buffer`, whose size is `config.buffer_size + 1`. -/
def Config.queue (config : Config) (buffer : ℕ → UInt8) : Queue :=
  ⟨0, 0, sizeAdd config.bufferSize 1, buffer⟩

/-- The index has a method, the sizes are the given numbers of units, no divisor is zero, and
`send_feedback` can convert its quotients while it finds the queue in these states. -/
structure SafeToRun (client : Client) (argv : List (List UInt8)) (config : Config)
    (queues : List Queue) : Prop where
  congestionControlIndex :
    config.congestionControlIndex.toNat < client.congestionControlMethods.length
  bufferSize : (config.bufferSize : ℤ) = integer0 (arg argv 5) * bufferUnitSize
  targetBufferOccupancy :
    (config.targetBufferOccupancy : ℤ) = integer0 (arg argv 6) * bufferUnitSize
  queue : ∀ buffer, 1 ≤ (config.queue buffer).length
  blocksize : 1 ≤ config.blocksize
  divisor : config.divisor ≠ .ofRat 0
  feedbacks : ∀ method,
    client.congestionControlMethods[config.congestionControlIndex.toNat]? = some method →
      feedbacks method config config.packetsPerSecond queues ≠ none

/-- The gain that the parameter file has at a place, or 0. -/
def gain (env : Env) (i : ℕ) : LongDouble :=
  ((env.parametersFile.bind fun content => (parameterTokens content)[i]?).map strtold).getD
    (.ofRat 0)

/-- The configuration that the arguments and the parameter file describe. -/
def described (env : Env) (argv : List (List UInt8)) : Config where
  audioFilename := arg argv 3
  blocksize := UInt16.ofInt (integer0 (arg argv 4))
  bufferSize := (integer0 (arg argv 5) * bufferUnitSize).toNat
  targetBufferOccupancy := (integer0 (arg argv 6) * bufferUnitSize).toNat
  packetsPerSecond := strtold (arg argv 7)
  congestionControlIndex := UInt16.ofInt (integer0 (arg argv 8))
  logFilename := arg argv 9
  epsilon := gain env 0
  beta := gain env 1
  alpha := gain env 2

/-- A number of units of which the size fits 64 bits. -/
def FitsSize (n : ℤ) : Prop := 0 ≤ n ∧ n < 2 ^ 52

/-- The number of the method, of at most 64 bits, has low bits with a method; the numbers of units
are small enough; the third number in the parameter file is not rounded to -1; and the packet rates
of the run have an interval. -/
structure InRange (client : Client) (env : Env) (argv : List (List UInt8)) (queues : List Queue) :
    Prop where
  method : (integer0 (arg argv 8)).natAbs < 2 ^ 64 ∧
    integer0 (arg argv 8) % 2 ^ 16 < client.congestionControlMethods.length
  bufferSize : FitsSize (integer0 (arg argv 5))
  targetBufferOccupancy : FitsSize (integer0 (arg argv 6))
  alpha : ∀ content alpha, env.parametersFile = some content →
    (parameterTokens content)[2]? = some alpha →
      ¬ (-1 - 2 ^ (-64 : ℤ) ≤ readNumber alpha ∧ readNumber alpha ≤ -1 + 2 ^ (-65 : ℤ))
  packetRates : ∀ method,
    client.congestionControlMethods[(integer0 (arg argv 8) % 2 ^ 16).toNat]? = some method →
      ∀ rate ∈ packetRates method (described env argv) (strtold (arg argv 7)) queues,
        Convertible rate

/-- The parameters that the methods read, if the gains are numbers. -/
def Config.parameters (config : Config) : Option Lab5.Config :=
  match config.epsilon, config.beta, config.alpha with
  | .finite epsilon, .finite beta, .finite alpha =>
    some ⟨config.blocksize, config.targetBufferOccupancy, epsilon, beta, alpha⟩
  | _, _, _ => none

/-- **The parameters of a safe configuration** are those that the methods can divide by. -/
theorem SafeToRun.parameters {client : Client} {argv : List (List UInt8)} {config : Config}
    {queues : List Queue} (h : SafeToRun client argv config queues) {parameters : Lab5.Config}
    (hparameters : config.parameters = some parameters) :
    1 ≤ parameters.blocksize ∧ 1 + parameters.alpha ≠ 0 := by
  rw [Config.parameters] at hparameters
  split at hparameters
  · rename_i hepsilon hbeta halpha
    obtain rfl := Option.some.inj hparameters
    refine ⟨h.blocksize, fun hzero => h.divisor ?_⟩
    rw [Config.divisor, halpha, LongDouble.one_add_eq_zero_iff,
      LongDouble.ofRat_of_representable LongDouble.representable_neg_one, LongDouble.finite.injEq,
      Subtype.ext_iff]
    exact eq_neg_of_add_eq_zero_right hzero
  · cases hparameters

/-- The check of a value that is a number is that of the number. -/
theorem checkPacketsPerSecond_finite (r : { r : ℚ // extended.Representable r }) :
    checkPacketsPerSecond (.finite r) = Lab5.checkPacketsPerSecond r := by
  rw [checkPacketsPerSecond, LongDouble.ofRat_of_representable LongDouble.representable_zero,
    LongDouble.ofRat_of_representable representable_thousand]
  simp [LongDouble.lt, Lab5.checkPacketsPerSecond]

/-! ## The configurations that are accepted -/

/-- What an accepted configuration holds. -/
structure Stored (env : Env) (argv : List (List UInt8)) (config : Config) : Prop where
  checkBlocksize : checkBlocksize (strtoul0 (arg argv 4)) = 0
  config : config = { described env argv with
    blocksize := UInt16.ofNat (strtoul0 (arg argv 4))
    bufferSize := sizeMul (strtoul0 (arg argv 5)) bufferUnitSize
    targetBufferOccupancy := sizeMul (strtoul0 (arg argv 6)) bufferUnitSize
    congestionControlIndex := UInt16.ofNat (strtoul0 (arg argv 8)) }

/-- The gains do not touch the other fields. -/
theorem storeParameters_eq (config : Config) (words : List (List UInt8)) :
    storeParameters config words = { config with
      epsilon := (words[0]?.map strtold).getD config.epsilon
      beta := (words[1]?.map strtold).getD config.beta
      alpha := (words[2]?.map strtold).getD config.alpha } := by
  rcases words with - | ⟨epsilon, - | ⟨beta, - | ⟨alpha, words⟩⟩⟩ <;> rfl

theorem readParametersFile_some (content : List UInt8) (config : Config) :
    readParametersFile (some content) config = (0, storeParameters
      { config with epsilon := .ofRat 0, beta := .ofRat 0, alpha := .ofRat 0 }
      (parameterTokens content)) := by
  simp only [readParametersFile]
  split_ifs with hnil
  · rw [parameterTokens, hnil]
    rfl
  · rfl

/-- **What is accepted is stored.** -/
theorem stored_of_getConfig {env : Env} {argv : List (List UInt8)} {config : Config}
    (h : (getConfig env argv config).1 = 0) : Stored env argv (getConfig env argv config).2 := by
  simp only [getConfig] at h ⊢
  split_ifs at h ⊢ with hargc haddress hname hblock hrate hfile
  · cases h
  · cases h
  · cases h
  · cases h
  · cases h
  · cases h
  · cases hcontent : env.parametersFile with
    | none =>
      rw [hcontent] at hfile
      exact absurd (show (-1 : ℤ) < 0 by decide) hfile
    | some content =>
      rw [readParametersFile_some, storeParameters_eq]
      refine ⟨not_not.mp hblock, ?_⟩
      simp only [described, gain, hcontent, Option.bind_some]

/-! ## The ranges -/

/-- A whole number of units leaves room for one byte more. -/
theorem one_le_queue_length (n : ℕ) : 1 ≤ sizeAdd (sizeMul n bufferUnitSize) 1 := by
  simp only [sizeAdd, sizeMul, bufferUnitSize, audioFrameSize]
  omega

/-- A size is the number of units times their size exactly when it fits. -/
theorem sizeMul_strtoul0_eq_iff (s : List UInt8) :
    (sizeMul (strtoul0 s) bufferUnitSize : ℤ) = integer0 s * bufferUnitSize ↔
      FitsSize (integer0 s) := by
  simp only [strtoul0_eq, sizeMul, bufferUnitSize, audioFrameSize, FitsSize]
  split_ifs <;> omega

variable {client : Client} {env : Env} {argv : List (List UInt8)} {config : Config}

/-- A block size that passes the check is stored without a loss. -/
theorem Stored.one_le_blocksize (h : Stored env argv config) : 1 ≤ config.blocksize := by
  have hcheck := h.checkBlocksize
  rw [AudioClient.checkBlocksize] at hcheck
  split_ifs at hcheck with hrange
  rw [h.config, UInt16.le_iff_toNat_le, UInt16.toNat_ofNat']
  have hone : (1 : UInt16).toNat = 1 := rfl
  omega

theorem Stored.method_iff (h : Stored env argv config) (n : ℕ) (hn : n < 2 ^ 16) :
    config.congestionControlIndex.toNat < n ↔
      (integer0 (arg argv 8)).natAbs < 2 ^ 64 ∧ integer0 (arg argv 8) % 2 ^ 16 < n := by
  have hindex := toNat_ofNat_strtoul0 (arg argv 8)
  have hconfig : config.congestionControlIndex = UInt16.ofNat (strtoul0 (arg argv 8)) := by
    rw [h.config]
  rw [← hconfig] at hindex
  split_ifs at hindex <;> omega

/-- **The divisor of method E** is zero exactly when the third number is rounded to -1. -/
theorem Stored.divisor_ne_zero_iff (h : Stored env argv config) :
    config.divisor ≠ .ofRat 0 ↔ ∀ content alpha, env.parametersFile = some content →
      (parameterTokens content)[2]? = some alpha →
        ¬ (-1 - 2 ^ (-64 : ℤ) ≤ readNumber alpha ∧ readNumber alpha ≤ -1 + 2 ^ (-65 : ℤ)) := by
  have halpha : config.alpha = gain env 2 := by rw [h.config]; rfl
  rw [Config.divisor, ne_eq, LongDouble.one_add_eq_zero_iff, halpha, gain]
  cases htoken : env.parametersFile.bind fun content => (parameterTokens content)[2]? with
  | none =>
    refine iff_of_true ?_ fun content alpha hcontent halpha => ?_
    · rw [Option.map_none, Option.getD_none, LongDouble.ofRat_eq_neg_one_iff]
      norm_num
    · rw [hcontent, Option.bind_some, halpha] at htoken
      cases htoken
  | some alpha =>
    obtain ⟨content, hcontent, htoken⟩ := Option.bind_eq_some_iff.mp htoken
    rw [Option.map_some, Option.getD_some, strtold_eq_neg_one_iff]
    constructor
    · intro hnot content' alpha' hcontent' halpha'
      obtain rfl := Option.some.inj (hcontent.symm.trans hcontent')
      obtain rfl := Option.some.inj (htoken.symm.trans halpha')
      exact hnot
    · intro hall
      exact hall content alpha hcontent htoken

/-- **What is in range is stored as it is described.** -/
theorem Stored.eq_described (h : Stored env argv config)
    (hmethod : (integer0 (arg argv 8)).natAbs < 2 ^ 64) (hbuffer : FitsSize (integer0 (arg argv 5)))
    (htarget : FitsSize (integer0 (arg argv 6))) : config = described env argv := by
  have hblock : (integer0 (arg argv 4)).natAbs < 2 ^ 64 := by
    have hcheck := h.checkBlocksize
    by_contra hlarge
    rw [strtoul0_eq, if_pos (by omega)] at hcheck
    revert hcheck
    decide
  have hbuffer' := (sizeMul_strtoul0_eq_iff (arg argv 5)).mpr hbuffer
  have htarget' := (sizeMul_strtoul0_eq_iff (arg argv 6)).mpr htarget
  rw [h.config, ofNat_strtoul0 hblock, ofNat_strtoul0 hmethod]
  simp only [described, ← hbuffer', ← htarget', Int.toNat_natCast]

/-- **The answers of the run.** -/
theorem Stored.feedbacks_iff (h : Stored env argv config) (queues : List Queue)
    (hmethod : (integer0 (arg argv 8)).natAbs < 2 ^ 64) (hbuffer : FitsSize (integer0 (arg argv 5)))
    (htarget : FitsSize (integer0 (arg argv 6))) :
    (∀ method,
      client.congestionControlMethods[config.congestionControlIndex.toNat]? = some method →
        feedbacks method config config.packetsPerSecond queues ≠ none) ↔
      ∀ method,
        client.congestionControlMethods[(integer0 (arg argv 8) % 2 ^ 16).toNat]? = some method →
          ∀ rate ∈ packetRates method (described env argv) (strtold (arg argv 7)) queues,
            Convertible rate := by
  have hindex : (described env argv).congestionControlIndex.toNat =
      (integer0 (arg argv 8) % 2 ^ 16).toNat := by
    have htoNat := toNat_ofNat_strtoul0 (arg argv 8)
    rw [if_neg (by omega), ofNat_strtoul0 hmethod] at htoNat
    rw [← htoNat]
    rfl
  rw [h.eq_described hmethod hbuffer htarget, hindex]
  refine forall_congr' fun method => imp_congr_right fun hget => ?_
  exact feedbacks_ne_none_iff (List.mem_of_getElem? hget) _ _ _

/-- **The configurations that are safe to run.** For every argument vector and parameter file that
`get_config` accepts, and every run: the configuration is safe to run if and only if the numbers and
the packet rates are in range. -/
theorem safeToRun_iff (client : Client) (env : Env) (argv : List (List UInt8)) (config : Config)
    (queues : List Queue) (h : (getConfig env argv config).1 = 0) :
    SafeToRun client argv (getConfig env argv config).2 queues ↔
      InRange client env argv queues := by
  have hstored := stored_of_getConfig h
  have hmethods : client.congestionControlMethods.length < 2 ^ 16 := by
    cases client <;> decide
  have hmethod := hstored.method_iff _ hmethods
  have hbuffer := sizeMul_strtoul0_eq_iff (arg argv 5)
  have htarget := sizeMul_strtoul0_eq_iff (arg argv 6)
  have hsize : (getConfig env argv config).2.bufferSize =
      sizeMul (strtoul0 (arg argv 5)) bufferUnitSize := by rw [hstored.config]
  have hsize' : (getConfig env argv config).2.targetBufferOccupancy =
      sizeMul (strtoul0 (arg argv 6)) bufferUnitSize := by rw [hstored.config]
  rw [← hsize] at hbuffer
  rw [← hsize'] at htarget
  constructor
  · intro hsafe
    have hrange := hmethod.mp hsafe.congestionControlIndex
    have hfits := hbuffer.mp hsafe.bufferSize
    have hfits' := htarget.mp hsafe.targetBufferOccupancy
    exact ⟨hrange, hfits, hfits', hstored.divisor_ne_zero_iff.mp hsafe.divisor,
      (hstored.feedbacks_iff queues hrange.1 hfits hfits').mp hsafe.feedbacks⟩
  · intro hrange
    refine ⟨hmethod.mpr hrange.method, hbuffer.mpr hrange.bufferSize,
      htarget.mpr hrange.targetBufferOccupancy, fun buffer => ?_, hstored.one_le_blocksize,
      hstored.divisor_ne_zero_iff.mpr hrange.alpha,
      (hstored.feedbacks_iff queues hrange.method.1 hrange.bufferSize
        hrange.targetBufferOccupancy).mpr hrange.packetRates⟩
    rw [Config.queue, hsize]
    exact one_le_queue_length _

/-- What the configuration holds before the call. -/
def blankConfig : Config := ⟨[], 0, 0, 0, .nan, 0, [], .nan, .nan, .nan⟩

/-- The arguments `127.0.0.1 9000 kj.au 512 10 5`, a packet rate, a method, and `log`. -/
def sampleArgv (packetsPerSecond : List UInt8) (method : UInt8) : List (List UInt8) :=
  [[0x61], [0x31, 0x32, 0x37, 0x2e, 0x30, 0x2e, 0x30, 0x2e, 0x31], [0x39, 0x30, 0x30, 0x30],
    [0x6b, 0x6a, 0x2e, 0x61, 0x75], [0x35, 0x31, 0x32], [0x31, 0x30], [0x35], packetsPerSecond,
    [method], [0x6c, 0x6f, 0x67]]

/-- The packet rate `100` and a method. -/
def methodArgv : UInt8 → List (List UInt8) := sampleArgv [0x31, 0x30, 0x30]

/-- The packet rate `nan`. -/
def nanArgv : List (List UInt8) := sampleArgv [0x6e, 0x61, 0x6e] 0x30

/-- The parameters `0.5 1 0.5`. -/
def sampleEnv : Env where
  buildAddrinfo _ _ := 0
  parametersFile := some [0x30, 0x2e, 0x35, 0x20, 0x31, 0x20, 0x30, 0x2e, 0x35]

/-- The queue behind one block, and behind two. -/
def sampleQueues : List Queue := [⟨512, 0, 40961, fun _ => 0⟩, ⟨1024, 0, 40961, fun _ => 0⟩]

/-- Method E of the second client, with two answers. -/
theorem safeToRun_sample :
    SafeToRun .v2 (methodArgv 0x32) (getConfig sampleEnv (methodArgv 0x32) blankConfig).2
      sampleQueues := by
  refine (safeToRun_iff .v2 sampleEnv (methodArgv 0x32) blankConfig sampleQueues
    (by decide +kernel)).mpr
    ⟨by decide, ⟨by decide, by decide⟩, ⟨by decide, by decide⟩, ?_, ?_⟩
  · rintro content alpha ⟨⟩ ⟨⟩
    decide +kernel
  · rintro method ⟨⟩
    decide +kernel

/-- Method 2 of the first client, which has two. -/
theorem not_safeToRun_method :
    (getConfig sampleEnv (methodArgv 0x32) blankConfig).1 = 0 ∧
      ¬ SafeToRun .v1 (methodArgv 0x32) (getConfig sampleEnv (methodArgv 0x32) blankConfig).2
        sampleQueues := by
  have haccept : (getConfig sampleEnv (methodArgv 0x32) blankConfig).1 = 0 := by decide +kernel
  refine ⟨haccept, fun hsafe => ?_⟩
  have hindex := hsafe.congestionControlIndex
  rw [(stored_of_getConfig haccept).config] at hindex
  revert hindex
  decide

/-- A packet rate that is no number is accepted, and its first answer is undefined. -/
theorem not_safeToRun_nan :
    (getConfig sampleEnv nanArgv blankConfig).1 = 0 ∧
      ¬ SafeToRun .v1 nanArgv (getConfig sampleEnv nanArgv blankConfig).2 sampleQueues := by
  refine ⟨by decide +kernel, fun hsafe => ?_⟩
  refine hsafe.feedbacks updatePacketRateMethedC ?_ ?_
  · have hindex : (getConfig sampleEnv nanArgv blankConfig).2.congestionControlIndex = 0 := by
      decide +kernel
    rw [hindex]
    rfl
  · decide +kernel

end CS536Labs.Lab5.AudioClient
