import FcGpui.Lib.Sorting
import FcGpui.Lib.Slice
import FcGpui.Lib.Machine
import FcGpui.Lib.OrdMap
import FcGpui.Lib.Stretches
import FcGpui.Geometry
import FcGpui.Scene.BoundsTree
import FcGpui.Scene.BoundsTreeSearch
import FcGpui.Scene.BoundsTreeGraft
import FcGpui.Scene.BoundsTreeInsert
import FcGpui.Scene.Scene
import FcGpui.Scene.Replay
import FcGpui.Scene.Batches
import FcGpui.Scene.PaintersOrder
import FcGpui.Subscription.SubscriberSet
import FcGpui.Subscription.Cancellation
import FcGpui.TextSystem.ShapeText
import FcGpui.TextSystem.RunCover
import FcGpui.TextSystem.LayoutCache
import FcGpui.TextSystem.CacheContents
import FcGpui.TextSystem.CacheRuns
import FcGpui.Keymap.Binding
import FcGpui.Keymap.Keymap
import FcGpui.Keymap.ShownShortcuts
import FcGpui.Window.Frame
import FcGpui.Window.Draw
import FcGpui.Window.Reproduce
import FcGpui.Window.Growth
import FcGpui.Window.Visits
import FcGpui.Window.PrepaintRanges
import FcGpui.Window.PrepaintRounds
import FcGpui.Window.PaintRanges
import FcGpui.Window.PaintRounds
import FcGpui.Window.FreshRanges
import FcGpui.Window.TrackedReads
import FcGpui.Window.TrackedViews
import FcGpui.WindowTabs.Controller
import FcGpui.WindowTabs.Conservation
import FcGpui.Lib.Custody
import FcGpui.Subscription.LiveCalls
import FcGpui.Lib.Chunks
import FcGpui.SumTree.Summary
import FcGpui.SumTree.Tree
import FcGpui.SumTree.WellFormed
import FcGpui.SumTree.Build
import FcGpui.SumTree.Cursor
import FcGpui.SumTree.Slices
import FcGpui.SumTree.Reachable
import FcGpui.Renderer.InstanceBuffer
import FcGpui.Renderer.FrameUploads
import FcGpui.Keymap.KeyDispatch
import FcGpui.Renderer.PathBatches
import FcGpui.Window.PendingInput
import FcGpui.Window.PendingFocus
import FcGpui.App.Effects
import FcGpui.App.Notifications
import FcGpui.Lib.Allocator
import FcGpui.Renderer.Atlas
import FcGpui.Renderer.AtlasTiles
import FcGpui.Renderer.StaleSprites
import FcGpui.Keymap.ChordGroups
import FcGpui.Keymap.PossibleNext
import FcGpui.Keymap.PendingPrefix
import FcGpui.DispatchTree.Stacks
import FcGpui.DispatchTree.Reuse
import FcGpui.Window.Transact
import FcGpui.Window.RetriedPrepaint
import FcGpui.App.EntityMap
import FcGpui.App.RefCounts
import FcGpui.SumTree.Path
import FcGpui.SumTree.Seek
import FcGpui.SumTree.Search
import FcGpui.SumTree.Places
import FcGpui.SumTree.Boundary
import FcGpui.SumTree.Tracking
import FcGpui.SumTree.SliceContents
import FcGpui.SumTree.TreeMap
import FcGpui.SumTree.Iteration
import FcGpui.SumTree.MapContents
import FcGpui.SumTree.FilterCursor
import FcGpui.App.Windows
import FcGpui.App.FlushExclusion
import FcGpui.App.MissingWindows
import FcGpui.App.Invalidation
import FcGpui.Renderer.AtlasBookkeeping
import FcGpui.Lib.Separated
import FcGpui.Paths.RelPath
import FcGpui.Paths.NormalForm
import FcGpui.Paths.PathRuns
import FcGpui.Lib.Cycle
import FcGpui.Window.TabOrder
import FcGpui.Window.TabNavigation
import FcGpui.Elements.ListLayout
import FcGpui.Elements.ItemCounts
import FcGpui.Elements.ListItems
import FcGpui.Elements.LayoutLoops
import FcGpui.Elements.MeasuredWindow
import FcGpui.Keymap.OuterContexts
import FcGpui.Keymap.Precedence
import FcGpui.SumTree.PastTheEnd
import FcGpui.SumTree.Edits
import FcGpui.SumTree.MapEdits
import FcGpui.Keymap.Context
import FcGpui.Keymap.ParseContext
import FcGpui.Keymap.KeystrokeText
import FcGpui.Keymap.ParsePredicate
import FcGpui.Lib.Fuel
import FcGpui.Keymap.PredicateGrammar
import FcGpui.Keymap.PredicateChains
import FcGpui.Keymap.PredicateDisplay
import FcGpui.Elements.Descent
import FcGpui.Elements.LaidOut
import FcGpui.Elements.PendingScroll
import FcGpui.Elements.HeightSeeks
import FcGpui.Lib.ExactFloats
import FcGpui.Elements.FloatPixels
import FcGpui.Elements.UnroundedHeights
import FcGpui.Elements.VisibleRange
import FcGpui.Elements.RevealItem
import FcGpui.App.GlobalActions
import FcGpui.Subscription.CancelledInPass
import FcGpui.TextSystem.SplitLine
import FcGpui.TextSystem.LineCursor
import FcGpui.TextSystem.CursorDecorations
import FcGpui.TextSystem.CursorGlyphs
import FcGpui.TextSystem.LineRemainder
import FcGpui.TextSystem.ClampedLines
import FcGpui.TextSystem.CursorSplits
import FcGpui.Scene.BruteForce
import FcGpui.Scene.LosslessBatches
import FcGpui.Lib.Reordering
import FcGpui.Scene.LayerOrder
import FcGpui.Elements.Anchored
import FcGpui.Elements.UniformList
import FcGpui.TextSystem.ClosestIndex
import FcGpui.TextSystem.WrappedPositions
import FcGpui.TextSystem.LineWrapper
import FcGpui.TextSystem.WrappedRows
import FcGpui.TextSystem.WordBreaks
import FcGpui.TextSystem.TruncateLine
import FcGpui.Elements.Scrollbar
import FcGpui.Elements.ItemBounds
import FcGpui.Elements.DrawnItems
import FcGpui.TextSystem.ShapedRows
import FcGpui.Renderer.FailedInsertions
import FcGpui.Window.A11yTree
import FcGpui.Window.ModifierKeys
import FcGpui.Window.ArenaRuns
import FcGpui.Lib.FirstDifference
import FcGpui.Paths.NaturalSort
import FcGpui.Paths.NaturalOrder
import FcGpui.Paths.ComparePaths
import FcGpui.Paths.LexicalForm
import FcGpui.Paths.HiddenRoots
import FcGpui.App.AssetCache
import FcGpui.App.AssetRuns
import FcGpui.Platform.ThreadedDispatcher
import FcGpui.Platform.IdleRuns
import FcGpui.Window.InputTimeout
import FcGpui.Window.TimeoutRuns
import FcGpui.Paths.SetExtension
import FcGpui.Paths.ComponentLists
import FcGpui.Refineable.DeriveRefineable
import FcGpui.Platform.Profiler
import FcGpui.Refineable.Laws
import FcGpui.Platform.ProfilerRuns
import FcGpui.Platform.X11Clipboard
import FcGpui.Platform.ClipboardRuns
import FcGpui.Util.InlineCode
import FcGpui.Util.MergeJson
import FcGpui.Lib.Residues
import FcGpui.Util.WrappedRanges
import FcGpui.Lib.BinarySearch
import FcGpui.Lib.SortedUnion
import FcGpui.Util.ExtendSorted
import FcGpui.Elements.SplicedAnchor
import FcGpui.Lib.Propagation
import FcGpui.Window.MouseDispatch
import FcGpui.Elements.Drops
import FcGpui.Elements.PressedElements
import FcGpui.Elements.Clicks
import FcGpui.Platform.FrameLoop
import FcGpui.Platform.FrameWakes
import FcGpui.Platform.FrameRuns
