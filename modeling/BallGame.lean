import BallGame.Client.BallCount
import BallGame.Client.BallDrawing
import BallGame.Client.Decoding
import BallGame.Client.Leaks
import BallGame.Client.Render
import BallGame.Client.Scaling
import BallGame.Client.ScreenBall
import BallGame.Client.ScreenBallManager
import BallGame.Library.Binary32
import BallGame.Library.Blocks
import BallGame.Library.Copies
import BallGame.Library.CountedList
import BallGame.Library.DigitalLine
import BallGame.Library.Fields
import BallGame.Library.FlatLocks
import BallGame.Library.LineInput
import BallGame.Library.LinkedList
import BallGame.Library.Liveness
import BallGame.Library.Locks
import BallGame.Library.Memory
import BallGame.Library.Monitor
import BallGame.Library.Reflection
import BallGame.Library.Ring
import BallGame.Library.Runs
import BallGame.Library.Selection
import BallGame.Library.Stdio
import BallGame.Library.Writes
import BallGame.Protocol.AllocationFailure
import BallGame.Protocol.BallSize
import BallGame.Protocol.ClientShutdown
import BallGame.Protocol.ClientThreads
import BallGame.Protocol.Farewell
import BallGame.Protocol.Frames
import BallGame.Protocol.Keyboard
import BallGame.Protocol.Leaving
import BallGame.Protocol.ReceiveBuffers
import BallGame.Protocol.Rendering
import BallGame.Protocol.Serializers
import BallGame.Protocol.Session
import BallGame.Protocol.Stream
import BallGame.Protocol.TestClient
import BallGame.Protocol.TypedCommands
import BallGame.Server.AddCommand
import BallGame.Server.Arena
import BallGame.Server.BallBounds
import BallGame.Server.BallStore
import BallGame.Server.Broadcast
import BallGame.Server.BufferSize
import BallGame.Server.ClientListManager
import BallGame.Server.ClientRegistry
import BallGame.Server.Command
import BallGame.Server.CommandGrammar
import BallGame.Server.CommandOrder
import BallGame.Server.Connections
import BallGame.Server.DeadlockFreedom
import BallGame.Server.Drains
import BallGame.Server.EdgeTriggered
import BallGame.Server.Freezing
import BallGame.Server.Identifiers
import BallGame.Server.Leaks
import BallGame.Server.LocalBall
import BallGame.Server.LocalBallManager
import BallGame.Server.LockDiscipline
import BallGame.Server.MemoryLog
import BallGame.Server.Motion
import BallGame.Server.NewestBalls
import BallGame.Server.OpenSockets
import BallGame.Server.Orphans
import BallGame.Server.OwnerIsolation
import BallGame.Server.QueueMonitor
import BallGame.Server.QueueShutdown
import BallGame.Server.QueueSoundness
import BallGame.Server.QueueWakeup
import BallGame.Server.RequestIndices
import BallGame.Server.Sending
import BallGame.Server.ServedOnce
import BallGame.Server.SlowDown
import BallGame.Server.SpeedLimits
import BallGame.Server.Survival
import BallGame.Server.Task
import BallGame.Server.Threads
import BallGame.Server.Transitions
import BallGame.Shared.FilledCircle
import BallGame.Shared.Framebuffer
import BallGame.Shared.Glyphs
import BallGame.Shared.Line
import BallGame.Shared.Screen
import BallGame.Shared.Text
