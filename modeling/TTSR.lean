import TTSR.Foundation.Dict
import TTSR.Foundation.Machine
import TTSR.Foundation.MatchingBlocks
import TTSR.Foundation.Batching
import TTSR.Foundation.Brackets
import TTSR.Foundation.Columns
import TTSR.Foundation.FirstOccurrence
import TTSR.Foundation.Futures
import TTSR.Foundation.Grouping
import TTSR.Foundation.Merging
import TTSR.Foundation.Paths
import TTSR.Foundation.Phases
import TTSR.Foundation.Plurality
import TTSR.Foundation.Text
import TTSR.Foundation.TextFile
import TTSR.Foundation.Tickets
import TTSR.Foundation.Value
import TTSR.Foundation.JsonText
import TTSR.Foundation.JsonNumber
import TTSR.Foundation.JsonDecode
import TTSR.Foundation.VersionSort
import TTSR.Foundation.Rounding
import TTSR.Foundation.JsonRoundTrip
import TTSR.Foundation.JsonNormal
import TTSR.Foundation.DecimalFloat
import TTSR.IoUtils
import TTSR.JsonRows
import TTSR.Prompts
import TTSR.Reward.FinalAnswer
import TTSR.Reward.BoxedAnswer
import TTSR.Reward.RewardResult
import TTSR.Reward.MajorityVote
import TTSR.Reward.MajorityManager
import TTSR.Reward.GeneratedQuestion
import TTSR.Reward.TeacherReward
import TTSR.Reward.GroupReward
import TTSR.Reward.TeacherManager
import TTSR.Reward.GroupIntegrity
import TTSR.Reward.RewardWorkers
import TTSR.Reward.TeacherRuns
import TTSR.Reward.ExtraInfo
import TTSR.Memory.Weakness
import TTSR.Memory.Store
import TTSR.Memory.Representation
import TTSR.Memory.Accounting
import TTSR.Memory.MergeOrder
import TTSR.Memory.Persistence
import TTSR.Pipeline.ExtractFailed
import TTSR.Pipeline.PromptMining
import TTSR.Pipeline.RoundDataset
import TTSR.Pipeline.PrepareDataset
import TTSR.Pipeline.RoundUnion
import TTSR.Pipeline.BaseRows
import TTSR.Pipeline.ReflectionJoin
import TTSR.Pipeline.Reflection
import TTSR.Pipeline.MemoryRounds
import TTSR.Evaluator.Handler
import TTSR.Evaluator.Server
import TTSR.Evaluator.Concurrent
import TTSR.Pipeline.Synthesis
import TTSR.Pipeline.Extractors
import TTSR.Pipeline.Alignment
import TTSR.Foundation.Differencing
import TTSR.Foundation.LruCache
import TTSR.Foundation.Reordering
import TTSR.Trainer.DataProto
import TTSR.Trainer.LoadBalancer
import TTSR.Trainer.TrainingSteps
import TTSR.Trainer.Resume
import TTSR.Trainer.SeqlenBalancing
import TTSR.Trainer.BalanceBatch
import TTSR.Trainer.MicroBatches
import TTSR.Trainer.LogProbs
import TTSR.Trainer.LossAccumulation
import TTSR.Trainer.Advantage
import TTSR.Loop.Rounds
import TTSR.Loop.RoundData
import TTSR.Loop.EvaluatorLifecycle
import TTSR.Loop.TrainedPrompt
import TTSR.Loop.Checkpoints
import TTSR.Loop.WorkingDirs
