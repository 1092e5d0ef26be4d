import RobotNav.Library.Machine
import RobotNav.NavManager
import RobotNav.LaserMapping.Buffers
import RobotNav.LaserMapping.Alignment
import RobotNav.LaserMapping.Packages
import RobotNav.LaserMapping.ImuProcess
import RobotNav.LaserMapping.Node
import RobotNav.LaserMapping.Tiling
import RobotNav.LaserMapping.Freshness
import RobotNav.IkdTree.Box
import RobotNav.Library.Bounding
import RobotNav.IkdTree.Tree
import RobotNav.IkdTree.Operations
import RobotNav.IkdTree.Lazy
import RobotNav.IkdTree.Contents
import RobotNav.IkdTree.Counters
import RobotNav.IkdTree.Refinement
import RobotNav.LaserMapping.FovSegment
import RobotNav.LaserMapping.Continuity
import RobotNav.CustomPlanner.Grid
import RobotNav.CustomPlanner.Search
import RobotNav.CustomPlanner.Expansion
import RobotNav.CustomPlanner.Plan
import RobotNav.Library.Bresenham
import RobotNav.CustomPlanner.Sight
import RobotNav.CustomPlanner.Cost
import RobotNav.CustomController.Controller
import RobotNav.CustomController.Pruning
import RobotNav.CustomController.ClosedLoop
import RobotNav.LivoxDriver.Comm
import RobotNav.LivoxDriver.PubHandler
import RobotNav.LivoxDriver.Driver
import RobotNav.LivoxDriver.Handshake
import RobotNav.LivoxDriver.Timestamps
import RobotNav.Library.Rigid
import RobotNav.LivoxDriver.Extrinsics
import RobotNav.GlobalLocalization.Node
import RobotNav.GlobalLocalization.Submap
import RobotNav.GlobalLocalization.InitialPose
import RobotNav.GlobalLocalization.Readiness
import RobotNav.Library.Fifo
import RobotNav.LivoxDriver.RingBuffer
import RobotNav.CustomController.Commands
import RobotNav.CustomController.Progress
import RobotNav.CustomPlanner.Symmetry
import RobotNav.CustomPlanner.Smoothing
import RobotNav.CustomPlanner.Interpolation
import RobotNav.LaserMapping.Undistort
import RobotNav.LaserMapping.WindowMove
import RobotNav.IkdTree.Background
import RobotNav.IkdTree.Places
import RobotNav.IkdTree.Visits
import RobotNav.IkdTree.Interleaving
import RobotNav.IkdTree.Rebuilding
import RobotNav.LaserMapping.Odometry
import RobotNav.LaserMapping.GlobalArrays
import RobotNav.LaserMapping.MapIncremental
import RobotNav.GlobalLocalization.KalmanFilter
import RobotNav.GlobalLocalization.ScanWindow
import RobotNav.Library.Unwrap
import RobotNav.Preprocess.OffsetTimes
import RobotNav.Library.Heap
import RobotNav.Library.KLeast
import RobotNav.IkdTree.BoxSearch
import RobotNav.IkdTree.Voxels
import RobotNav.IkdTree.ManualHeap
import RobotNav.IkdTree.NearestSearch
import RobotNav.Preprocess.Features
import RobotNav.Preprocess.FeatureBounds
import RobotNav.Library.RunningStats
import RobotNav.LaserMapping.ImuInit
import RobotNav.CustomPlanner.Termination
import RobotNav.Library.Balance
import RobotNav.IkdTree.Balance
import RobotNav.LivoxDriver.RawBytes
import RobotNav.Library.Blocks
import RobotNav.Library.Gain
import RobotNav.Library.AxisTurn
import RobotNav.Library.Rodrigues
import RobotNav.Esekf.MtkMath
import RobotNav.Esekf.ExpLog
import RobotNav.Esekf.Directions
import RobotNav.Esekf.State
import RobotNav.Esekf.Predict
import RobotNav.Esekf.Propagation
import RobotNav.Esekf.Update
import RobotNav.Esekf.UpdateGain
import RobotNav.Esekf.UpdateLoop
import RobotNav.Esekf.Covariance
import RobotNav.Esekf.Runs
import RobotNav.Esekf.Taylor
import RobotNav.Esekf.RoundTrip
import RobotNav.Esekf.ShareModel
import RobotNav.Esekf.SurfUpdate
import RobotNav.Esekf.Derivative
import RobotNav.Esekf.Transition
import RobotNav.Library.Parts
import RobotNav.Esekf.Extrinsics
import RobotNav.Library.Calls
import RobotNav.LaserMapping.FilterCalls
import RobotNav.Esekf.MappingFilter
