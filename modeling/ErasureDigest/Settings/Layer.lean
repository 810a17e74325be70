import ErasureDigest.Environment
import ErasureDigest.Profile

/-!
# Settings

Each setting has a value without any file: the number that its variable
holds, else its standard value (`Settings.ofEnvironment`). No variable names
a strategy. The switches of a command line name some settings, and are
silent on the others (`Layer`); what they name takes the place of what file
and environment say (`Settings.override`).
-/

namespace ErasureDigest

/-- Some settings. -/
structure Layer where
  segmentSize? : Option UInt64
  strategy? : Option Strategy
  dataShards? : Option UInt64
  parityShards? : Option UInt64
  deriving DecidableEq

namespace Layer

/-- The variable that names the segment size. -/
def segmentSizeVariable : String := "INTEGRITY_SEGMENT_SIZE"

/-- The variable that names the number of data shards. -/
def dataShardsVariable : String := "INTEGRITY_DATA_SHARDS"

/-- The variable that names the number of parity shards. -/
def parityShardsVariable : String := "INTEGRITY_PARITY_SHARDS"

end Layer

/-- Everything that can be set. -/
structure Settings where
  segmentSize : UInt64
  strategy : Strategy
  layout : Layout
  deriving DecidableEq

namespace Settings

/-- What holds where nothing says otherwise. -/
def standard : Settings :=
  ⟨Profile.standard.segmentSize, .parallel, Profile.standard.layout⟩

instance : Inhabited Settings := ⟨standard⟩

/-! ## Without a file -/

/-- The segment size where no file names one. -/
def segmentSizeIn (env : Environment) : UInt64 :=
  env.numberOr Layer.segmentSizeVariable standard.segmentSize

/-- The number of data shards where no file names one. -/
def dataShardsIn (env : Environment) : UInt64 :=
  env.numberOr Layer.dataShardsVariable standard.layout.dataShards

/-- The number of parity shards where no file names one. -/
def parityShardsIn (env : Environment) : UInt64 :=
  env.numberOr Layer.parityShardsVariable standard.layout.parityShards

/-- The settings without a file. -/
def ofEnvironment (env : Environment) : Settings :=
  ⟨segmentSizeIn env, standard.strategy, ⟨dataShardsIn env, parityShardsIn env⟩⟩

/-! ## With switches, and in use -/

/-- The settings with those that switches name in their place. -/
def override (settings : Settings) (flags : Layer) : Settings where
  segmentSize := flags.segmentSize?.getD settings.segmentSize
  strategy := flags.strategy?.getD settings.strategy
  layout :=
    { dataShards := flags.dataShards?.getD settings.layout.dataShards
      parityShards := flags.parityShards?.getD settings.layout.parityShards }

/-- The profile of these settings, accepted or not. -/
def profile (settings : Settings) : Profile := ⟨settings.segmentSize, settings.layout⟩

end Settings

end ErasureDigest
